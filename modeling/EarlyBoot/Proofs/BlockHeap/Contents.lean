import EarlyBoot.Proofs.BlockHeap.Session

/-!
# The heap as a map from pointers to bytes

To its client the heap is a finite map: the payload address of every block in
use names a string of bytes.  The map is read off the headers in memory, so it
tells what the heap has done and not what its client believes.  `Transition`
says how an action may change that map, without mentioning blocks or headers,
and `honest_run_refines_map` says that the heap obeys it in every state that an
honest run reaches.  There the map has exactly the pointers that the client
holds, and its strings lie apart from each other and from all headers, inside
the region that was given to the heap.
-/

namespace EarlyBoot.BlockHeap.Session

abbrev Contents := Nat → Option (List UInt8)

/-- The bytes that the heap has handed out and not taken back, by their address. -/
def contents (s : Session) : Contents := fun p =>
  ((inUse (s.heap.blocks s.memory)).find? (s.heap.payloadAddress ·.offset = p)).map fun b =>
    s.memory.readBytes p b.size

def overwrite (bytes : List UInt8) (start : Nat) (patch : List UInt8) : List UInt8 :=
  bytes.take start ++ patch ++ bytes.drop (start + patch.length)

/-- What an action that answers `given` may do to the contents. -/
inductive Transition (old : Contents) : Action → Option Nat → Contents → Prop
  | allocate {size p : Nat} {bytes : List UInt8} : old p = none → size ≤ bytes.length →
      Transition old (.call (.allocate size)) (some p) (Function.update old p (some bytes))
  | allocateAligned {size align p : Nat} {bytes : List UInt8} : old p = none →
      size ≤ bytes.length →
      Transition old (.call (.allocateAligned size align)) (some p)
        (Function.update old p (some bytes))
  | allocateZeroed {count size n p : Nat} : old p = none → count * size ≤ n →
      Transition old (.call (.allocateZeroed count size)) (some p)
        (Function.update old p (some (List.replicate n 0)))
  | resize {newSize p q : Nat} {bytes bytes' : List UInt8} : old p = some bytes →
      (q = p ∨ old q = none) → newSize ≤ bytes'.length →
      bytes'.take (min bytes.length newSize) = bytes.take (min bytes.length newSize) →
      Transition old (.call (.resize p newSize)) (some q)
        (Function.update (Function.update old p none) q (some bytes'))
  | release {p : Nat} {bytes : List UInt8} : old p = some bytes →
      Transition old (.call (.release p)) none (Function.update old p none)
  | setSplitFactor {splitFactor : Nat} : Transition old (.setSplitFactor splitFactor) none old
  | write {address p : Nat} {bytes patch : List UInt8} : old p = some bytes → p ≤ address →
      address + patch.length ≤ p + bytes.length →
      Transition old (.write address patch) none
        (Function.update old p (some (overwrite bytes (address - p) patch)))

/-- The `n` usable bytes at `p` lie between `low` and `high`, apart from headers and other bytes. -/
structure Housed (s : Session) (low high p n : Nat) : Prop where
  usable : s.heap.usableSize s.memory p = .ok n
  aligned : p % 32 = 0
  inside : low ≤ p ∧ p + n ≤ high
  off_headers : ∀ b ∈ s.heap.blocks s.memory,
    p + n ≤ s.heap.base + b.offset ∨ s.heap.base + b.offset + headerSize ≤ p
  apart : ∀ q k, q ∈ s.live → q ≠ p → s.heap.usableSize s.memory q = .ok k →
    p + n ≤ q ∨ q + k ≤ p

variable {s : Session} {blocks blocks' : List BlockInfo} {b d : BlockInfo}

theorem Sound.usableSize_eq (hs : s.Sound blocks) (hb : b ∈ inUse blocks) :
    s.heap.usableSize s.memory (s.heap.payloadAddress b.offset) = .ok b.size :=
  usableSize_ok hs.placed hs.wellFormed (mem_inUse.1 hb).1 (mem_inUse.1 hb).2

theorem Sound.contents_of_block (hs : s.Sound blocks) (hb : b ∈ inUse blocks) :
    s.contents (s.heap.payloadAddress b.offset) =
      some (s.memory.readBytes (s.heap.payloadAddress b.offset) b.size) := by
  obtain ⟨c, hfind⟩ : ∃ c, (inUse blocks).find? (s.heap.payloadAddress ·.offset =
      s.heap.payloadAddress b.offset) = some c :=
    Option.isSome_iff_exists.1 (List.find?_isSome.2 ⟨b, hb, by simp⟩)
  have hc := (mem_inUse.1 (List.mem_of_find?_eq_some hfind)).1
  have haddress : s.heap.payloadAddress c.offset = s.heap.payloadAddress b.offset := by
    simpa using List.find?_some hfind
  -- no two blocks have the same address
  obtain rfl := hs.wellFormed.tiles.eq_of_offset hc (mem_inUse.1 hb).1
    (payloadAddress_inj.1 haddress)
  unfold contents
  rw [hs.wellFormed.blocks_eq hs.placed, hfind]
  rfl

theorem Sound.contents_of_not_live (hs : s.Sound blocks) {p : Nat} (hp : p ∉ s.live) :
    s.contents p = none := by
  have hfind : (inUse blocks).find? (s.heap.payloadAddress ·.offset = p) = none := by
    rw [List.find?_eq_none]
    intro b hb heq
    exact hp ((hs.mem_live p).2 ⟨b, hb, of_decide_eq_true heq⟩)
  unfold contents
  rw [hs.wellFormed.blocks_eq hs.placed, hfind]
  rfl

theorem Sound.housed (hs : s.Sound blocks) {low high p : Nat} (hlow : low ≤ s.heap.base)
    (hhigh : s.heap.base + s.heap.arenaSize ≤ high) (hp : p ∈ s.live) :
    ∃ n, s.Housed low high p n := by
  obtain ⟨b, hb, rfl⟩ := (hs.mem_live p).1 hp
  have ht := hs.wellFormed.tiles
  have hmem := (mem_inUse.1 hb).1
  obtain ⟨-, hstop, -⟩ := ht.bounds hmem
  have hoffset := ht.offset_aligned (Nat.zero_mod _) (mem_offsets.2 ⟨b, hmem, rfl⟩)
  have hbase := hs.placed.base_aligned
  refine ⟨b.size, hs.usableSize_eq hb, ?_, ?_, ?_, ?_⟩
  · simp only [payloadAddress, headerSize] at *
    omega
  · simp only [payloadAddress, BlockInfo.stop] at *
    omega
  · intro c hc
    rw [hs.wellFormed.blocks_eq hs.placed] at hc
    simp only [payloadAddress]
    rcases ht.apart hmem hc with rfl | hle | hle
    · right
      omega
    · left
      simp only [BlockInfo.stop] at hle
      omega
    · right
      simp only [BlockInfo.stop] at hle
      omega
  · intro q k hq hne hk
    obtain ⟨c, hc, rfl⟩ := (hs.mem_live q).1 hq
    rw [hs.usableSize_eq hc] at hk
    cases hk
    simp only [payloadAddress]
    rcases ht.apart hmem (mem_inUse.1 hc).1 with rfl | hle | hle
    · exact absurd rfl hne
    · left
      simp only [BlockInfo.stop] at hle
      omega
    · right
      simp only [BlockInfo.stop] at hle
      omega

/-! ## Calls -/

variable {call : Call} {m' : Memory} {gone new : Option BlockInfo}

theorem Sound.contents_kept (hs : s.Sound blocks)
    (hc : call.Succeeds s.heap s.memory blocks m' blocks' gone new) {p : Nat}
    (hp : ∀ d ∈ new, s.heap.payloadAddress d.offset ≠ p) :
    (s.after (.call call)).contents p =
      if call.givenBack = some p then none else s.contents p := by
  have hs' := hs.after_call hc
  rw [(after_of_ok hc.performed).2] at hs' ⊢
  by_cases hkept : ∃ b ∈ inUse blocks, b ∉ gone ∧ s.heap.payloadAddress b.offset = p
  · obtain ⟨b, hb, hgone, rfl⟩ := hkept
    have hb' := (hc.effect.mem_inUse b).2 (.inr ⟨hb, hgone⟩)
    have hback := mt (hs.givenBack_iff hc hb).1 hgone
    rw [if_neg hback, hs.contents_of_block hb]
    refine (hs'.contents_of_block hb').trans (congrArg some (Memory.readBytes_congr ?_))
    intro a hlow hhigh
    exact hc.effect.kept b hb hgone a (inPayload_iff.2 ⟨hlow, hhigh⟩)
  · rw [hs'.contents_of_not_live]
    · split
      · rfl
      · rename_i hback
        rw [hs.contents_of_not_live]
        intro hlive
        obtain ⟨b, hb, rfl⟩ := (hs.mem_live p).1 hlive
        exact hkept ⟨b, hb, mt (hs.givenBack_iff hc hb).2 hback, rfl⟩
    · intro hlive
      obtain ⟨d, hd, rfl⟩ := (hs'.mem_live p).1 hlive
      rcases (hc.effect.mem_inUse d).1 hd with hnew | ⟨hin, hgone⟩
      · exact hp d hnew rfl
      · exact hkept ⟨d, hin, hgone, rfl⟩

theorem Sound.contents_new (hs : s.Sound blocks)
    (hc : call.Succeeds s.heap s.memory blocks m' blocks' gone (some d)) :
    (s.after (.call call)).contents (s.heap.payloadAddress d.offset) =
      some (m'.readBytes (s.heap.payloadAddress d.offset) d.size) := by
  have hs' := hs.after_call hc
  rw [(after_of_ok hc.performed).2] at hs' ⊢
  exact hs'.contents_of_block ((hc.effect.mem_inUse d).2 (.inl rfl))

theorem Sound.contents_fresh (hs : s.Sound blocks)
    (hc : call.Succeeds s.heap s.memory blocks m' blocks' gone (some d)) :
    call.givenBack = some (s.heap.payloadAddress d.offset) ∨
      s.contents (s.heap.payloadAddress d.offset) = none := by
  by_cases hlive : s.heap.payloadAddress d.offset ∈ s.live
  · left
    obtain ⟨e, he, haddress⟩ := (hs.mem_live _).1 hlive
    rw [← haddress, hs.givenBack_iff hc he]
    by_contra hgone
    exact hc.fresh d rfl e he hgone (payloadAddress_inj.1 haddress)
  · exact .inr (hs.contents_of_not_live hlive)

theorem Sound.contents_after_call (hs : s.Sound blocks)
    (hc : call.Succeeds s.heap s.memory blocks m' blocks' gone (some d)) :
    (s.after (.call call)).contents =
      Function.update (fun p => if call.givenBack = some p then none else s.contents p)
        (s.heap.payloadAddress d.offset)
        (some (m'.readBytes (s.heap.payloadAddress d.offset) d.size)) := by
  funext p
  rw [Function.update_apply]
  by_cases heq : p = s.heap.payloadAddress d.offset
  · rw [if_pos heq, heq]
    exact hs.contents_new hc
  · rw [if_neg heq]
    apply hs.contents_kept hc
    intro e he
    rw [← Option.some.inj he]
    exact Ne.symm heq

theorem contents_without (c : Contents) (p : Nat) :
    (fun q => if some p = some q then none else c q) = Function.update c p none := by
  funext q
  rw [Function.update_apply]
  simp only [Option.some.injEq, eq_comm]

theorem Sound.transition_of_call (hs : s.Sound blocks)
    (hc : call.Succeeds s.heap s.memory blocks m' blocks' gone new) :
    Transition s.contents (.call call) (new.map (s.heap.payloadAddress ·.offset))
      (s.after (.call call)).contents := by
  have hpromise := hc.promise
  cases hpromise with
  | allocate hroom =>
      rw [hs.contents_after_call hc]
      exact .allocate ((hs.contents_fresh hc).resolve_left nofun) (by simpa using hroom)
  | allocateAligned hroom =>
      rw [hs.contents_after_call hc]
      exact .allocateAligned ((hs.contents_fresh hc).resolve_left nofun) (by simpa using hroom)
  | allocateZeroed hroom hzero =>
      rw [hs.contents_after_call hc, Memory.readBytes_eq_replicate hzero]
      exact .allocateZeroed ((hs.contents_fresh hc).resolve_left nofun) hroom
  | resize hroom hkept =>
      rename_i newSize b d
      have hb := hs.contents_of_block (hc.mem_gone b rfl)
      -- the block stays where it is or goes where no pointer was live
      have hplace : s.heap.payloadAddress d.offset = s.heap.payloadAddress b.offset ∨
          s.contents (s.heap.payloadAddress d.offset) = none :=
        (hs.contents_fresh hc).imp_left fun hback => (Option.some.inj hback).symm
      rw [hs.contents_after_call hc, Call.givenBack, contents_without]
      refine .resize hb hplace (by simpa using hroom) ?_
      rw [Memory.length_readBytes, Memory.take_readBytes _ _ (by omega),
        Memory.take_readBytes _ _ (by omega)]
      exact Memory.readBytes_shift fun i hi => hkept i (by omega) (by omega)
  | release =>
      rename_i b
      have hb := hs.contents_of_block (hc.mem_gone b rfl)
      have hafter : (s.after (.call (.release (s.heap.payloadAddress b.offset)))).contents =
          Function.update s.contents (s.heap.payloadAddress b.offset) none := by
        rw [← contents_without]
        funext p
        exact hs.contents_kept hc (by simp)
      rw [hafter]
      exact .release hb

theorem readBytes_overwrite {m : Memory} {p address n : Nat} {patch : List UInt8}
    (hlow : p ≤ address) (hhigh : address + patch.length ≤ p + n) :
    (m.writeBytes address patch).readBytes p n =
      overwrite (m.readBytes p n) (address - p) patch := by
  obtain ⟨start, rfl⟩ := Nat.exists_eq_add_of_le hlow
  obtain ⟨rest, rfl⟩ : ∃ rest, n = start + (patch.length + rest) :=
    ⟨n - start - patch.length, by omega⟩
  have hbefore : (m.writeBytes (p + start) patch).readBytes p start = m.readBytes p start :=
    Memory.readBytes_congr fun a _ ha => Memory.read_writeBytes_of_outside (by omega)
  have hafter : (m.writeBytes (p + start) patch).readBytes (p + start + patch.length) rest =
      m.readBytes (p + start + patch.length) rest :=
    Memory.readBytes_congr fun a ha _ => Memory.read_writeBytes_of_outside (by omega)
  rw [Memory.readBytes_add, Memory.readBytes_add, hbefore, hafter, Memory.readBytes_writeBytes]
  unfold overwrite
  rw [Nat.add_sub_cancel_left, Memory.take_readBytes _ _ (by omega), ← Nat.add_assoc,
    Memory.readBytes_add m p (start + patch.length) rest,
    List.drop_left' (Memory.length_readBytes _ _ _), List.append_assoc, Nat.add_assoc]

theorem Sound.transition_of_write (hs : s.Sound blocks) {address : Nat} {patch : List UInt8}
    (hhonest : s.Honest (.write address patch)) :
    Transition s.contents (.write address patch) none
      (s.after (.write address patch)).contents := by
  have hs' := hs.after_write hhonest
  obtain ⟨p, ho⟩ := hhonest
  obtain ⟨b, hb, rfl, hlow, hhigh⟩ := hs.owned_block ho
  have hsame := sameOutsidePayload_writeBytes hlow hhigh s.memory
  have hnew : (s.after (.write address patch)).contents =
      Function.update s.contents (s.heap.payloadAddress b.offset)
        (some (overwrite (s.memory.readBytes (s.heap.payloadAddress b.offset) b.size)
          (address - s.heap.payloadAddress b.offset) patch)) := by
    funext q
    rw [Function.update_apply]
    by_cases hlive : q ∈ s.live
    · obtain ⟨c, hc, rfl⟩ := (hs.mem_live q).1 hlive
      have hcontents : (s.after (.write address patch)).contents
          (s.heap.payloadAddress c.offset) =
            some ((s.memory.writeBytes address patch).readBytes
              (s.heap.payloadAddress c.offset) c.size) := hs'.contents_of_block hc
      rw [hs.contents_of_block hc]
      split
      · rename_i heq
        obtain rfl := hs.wellFormed.tiles.eq_of_offset (mem_inUse.1 hc).1 (mem_inUse.1 hb).1
          (payloadAddress_inj.1 heq)
        rw [hcontents, readBytes_overwrite hlow hhigh]
      · rename_i hne
        rw [hcontents]
        refine congrArg some (Memory.readBytes_congr ?_)
        intro a hlow' hhigh'
        apply hsame
        intro hin
        -- a byte of both payloads would put both blocks in the same place
        have hac : s.heap.InPayload c a := inPayload_iff.2 ⟨hlow', hhigh'⟩
        apply hne
        rw [hs.wellFormed.tiles.payload_apart (mem_inUse.1 hc).1 (mem_inUse.1 hb).1 hac hin]
    · have hne : q ≠ s.heap.payloadAddress b.offset := by
        rintro rfl
        exact hlive ((hs.mem_live _).2 ⟨b, hb, rfl⟩)
      rw [if_neg hne, hs.contents_of_not_live hlive]
      exact hs'.contents_of_not_live hlive
  rw [hnew]
  exact .write (hs.contents_of_block hb) hlow (by simpa using hhigh)

/-! ## Runs -/

theorem Sound.transition_of_setSplitFactor (hs : s.Sound blocks) (splitFactor : Nat) :
    Transition s.contents (.setSplitFactor splitFactor) none
      (s.after (.setSplitFactor splitFactor)).contents := by
  have hs' := hs.after_setSplitFactor splitFactor
  have hsame : (s.after (.setSplitFactor splitFactor)).contents = s.contents := by
    funext p
    by_cases hlive : p ∈ s.live
    · obtain ⟨b, hb, rfl⟩ := (hs.mem_live p).1 hlive
      rw [hs.contents_of_block hb]
      exact hs'.contents_of_block hb
    · rw [hs.contents_of_not_live hlive]
      exact hs'.contents_of_not_live hlive
  rw [hsame]
  exact .setSplitFactor

theorem after_arena (s : Session) (action : Action) :
    (s.after action).heap.base = s.heap.base ∧
      (s.after action).heap.arenaSize = s.heap.arenaSize := by
  cases action with
  | call call =>
      unfold after
      dsimp only
      split <;> exact ⟨rfl, rfl⟩
  | setSplitFactor splitFactor => exact ⟨rfl, rfl⟩
  | write address bytes => exact ⟨rfl, rfl⟩

theorem Sound.outside (hs : s.Sound blocks) {action : Action} (hhonest : s.Honest action)
    {a : Nat} (ha : s.heap.Outside a) : (s.after action).memory.read a = s.memory.read a := by
  cases action with
  | call call =>
      rcases hs.call hhonest with ⟨error, -, hfail⟩ | ⟨m', blocks', gone, new, hc⟩
      · rw [(after_of_error hfail).2]
      · rw [(after_of_ok hc.performed).2]
        exact hc.effect.outside a ha
  | setSplitFactor splitFactor => rfl
  | write address bytes =>
      obtain ⟨p, ho⟩ := hhonest
      obtain ⟨b, hb, rfl, hlow, hhigh⟩ := hs.owned_block ho
      apply sameOutsidePayload_writeBytes hlow hhigh
      rintro ⟨hin, hin'⟩
      have hstop := (hs.wellFormed.tiles.bounds (mem_inUse.1 hb).1).2.1
      rcases ha with ha | ha
      · omega
      · omega

theorem outside_init {h₀ h : BlockHeap} {start size : Nat} {m₀ m : Memory}
    (hregion : start + size ≤ Word.limit) (hinit : h₀.init start size m₀ = .ok h m) {a : Nat}
    (ha : h.Outside a) : m.read a = m₀.read a := by
  obtain ⟨-, hw, hsame⟩ := init_spec hregion hinit
  obtain ⟨-, hfits⟩ := hw.tiles.offset_lt (o := 0) (by simp)
  apply hsame
  intro o ho
  rw [List.mem_singleton.1 ho]
  rcases ha with ha | ha
  · left
    omega
  · right
    omega

/-- What an honest run keeps: the invariant, the place of the arena, and the bytes outside it. -/
structure Confined (s : Session) (h : BlockHeap) (m₀ : Memory) : Prop where
  sound : ∃ blocks, s.Sound blocks
  base : s.heap.base = h.base
  arenaSize : s.heap.arenaSize = h.arenaSize
  outside : ∀ a, s.heap.Outside a → s.memory.read a = m₀.read a

theorem Reaches.confined {h₀ h : BlockHeap} {start size : Nat} {m₀ m : Memory} {s : Session}
    (hrun : Reaches Honest ⟨h, m, []⟩ s) (hregion : start + size ≤ Word.limit)
    (hinit : h₀.init start size m₀ = .ok h m) : s.Confined h m₀ := by
  apply hrun.invariant (P := fun s => s.Confined h m₀)
  · exact ⟨⟨_, sound_of_init hregion hinit⟩, rfl, rfl, fun a ha => outside_init hregion hinit ha⟩
  · rintro t action ⟨⟨blocks, hs⟩, hbase, harena, houtside⟩ hhonest
    obtain ⟨hbase', harena'⟩ := t.after_arena action
    refine ⟨hs.after hhonest, hbase'.trans hbase, harena'.trans harena, ?_⟩
    intro a ha
    unfold Outside at ha houtside
    rw [hbase', harena'] at ha
    rw [hs.outside hhonest ha, houtside a ha]

/--
In every state that an honest run reaches, the pointers held are the addresses
of the blocks in use.  The strings of bytes that they name lie apart inside the
region, and no byte outside the arena has changed.  Every honest action changes
the map from pointers to bytes as `Transition` says, or fails and changes
nothing; to release a pointer never fails.
-/
theorem honest_run_refines_map {h₀ h : BlockHeap} {start size : Nat} {m₀ m : Memory}
    {s : Session} (hregion : start + size ≤ Word.limit)
    (hinit : h₀.init start size m₀ = .ok h m) (hrun : Reaches Honest ⟨h, m, []⟩ s) :
    (∀ p, p ∈ s.live ↔
        ∃ b ∈ inUse (s.heap.blocks s.memory), s.heap.payloadAddress b.offset = p) ∧
      (∀ p ∈ s.live, ∃ n, s.Housed start (start + size) p n) ∧
      (∀ a, s.heap.Outside a → s.memory.read a = m₀.read a) ∧
      ∀ action, s.Honest action →
        match s.reply action with
        | .ok given => Transition s.contents action given (s.after action).contents
        | .error _ => s.after action = s ∧ ∀ p, action ≠ .call (.release p) := by
  have hconfined := hrun.confined hregion hinit
  obtain ⟨blocks, hs⟩ := hconfined.sound
  obtain ⟨-, hlow, -, hhigh, -⟩ := init_eq_ok hinit
  rw [← hconfined.base] at hlow hhigh
  rw [← hconfined.arenaSize] at hhigh
  refine ⟨?_, fun p hp => hs.housed hlow hhigh hp, hconfined.outside, ?_⟩
  · rw [hs.wellFormed.blocks_eq hs.placed]
    exact hs.mem_live
  intro action hhonest
  cases action with
  | call call =>
      rcases hs.call hhonest with ⟨error, hfails⟩ | ⟨m', blocks', gone, new, hc⟩
      · obtain ⟨hreply, hafter⟩ := after_of_error hfails.performed
        rw [hreply]
        exact ⟨hafter, fun p heq => hfails.no_release p (Action.call.inj heq)⟩
      · rw [(after_of_ok hc.performed).1]
        exact hs.transition_of_call hc
  | setSplitFactor splitFactor => exact hs.transition_of_setSplitFactor splitFactor
  | write address bytes => exact hs.transition_of_write hhonest

theorem refines_map_at_resize :
    let s := smallSession.after (.call (.allocate 40))
    Reaches Honest smallSession s ∧ (∃ n, s.Housed 64 320 96 n) ∧
      Transition s.contents (.call (.resize 96 10)) (some 96)
        (s.after (.call (.resize 96 10))).contents ∧
      ∃ given, s.reply (.call (.release 96)) = .ok given ∧
        Transition s.contents (.call (.release 96)) given
          (s.after (.call (.release 96))).contents := by
  intro s
  have hallocate : smallSession.Honest (.call (.allocate 40)) := by
    intro p hp
    cases hp
  have hlive : 96 ∈ s.live := by decide +kernel
  have hreply : s.reply (.call (.resize 96 10)) = .ok (some 96) := by decide +kernel
  have hresize : s.Honest (.call (.resize 96 10)) := by
    intro p hp
    cases hp
    exact hlive
  have hrelease : s.Honest (.call (.release 96)) := by
    intro p hp
    cases hp
    exact hlive
  have hrun : Reaches Honest smallSession s := Reaches.refl.step hallocate
  obtain ⟨-, hhoused, -, htransition⟩ :=
    honest_run_refines_map (by decide) init_smallSession hrun
  have hmap := htransition _ hresize
  have hmap' := htransition _ hrelease
  rw [hreply] at hmap
  refine ⟨hrun, hhoused 96 hlive, hmap, ?_⟩
  cases hreleased : s.reply (.call (.release 96)) with
  | ok given =>
      rw [hreleased] at hmap'
      exact ⟨given, rfl, hmap'⟩
  | error stop =>
      rw [hreleased] at hmap'
      exact absurd rfl (hmap'.2 96)

end EarlyBoot.BlockHeap.Session
