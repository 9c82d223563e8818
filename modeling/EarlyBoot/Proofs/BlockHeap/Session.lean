import EarlyBoot.Proofs.BlockHeap.Outcome

/-!
# Sessions

A session is a heap together with the memory it lives in and the pointers that
its client holds.  The client calls the heap, changes the split factor and
writes to memory, in any order.  It is honest if it gives back only pointers it
holds and writes only where it has been given room.  A session starts with a
region that lies in the address space, as every region of valid memory does.

`Sound` ties the pointers held to the blocks in use.  `Sound.call` is the step
lemma for the calls, from which `Sound.after` keeps the invariant along every
honest run.
-/

namespace EarlyBoot.BlockHeap

open MemoryM (bind_of_ok bind_of_error)

inductive Call where
  | allocate (size : Nat)
  | allocateAligned (size align : Nat)
  | allocateZeroed (count size : Nat)
  | resize (address newSize : Nat)
  | release (address : Nat)
  deriving DecidableEq, Repr

def Call.perform (h : BlockHeap) : Call → HeapM (Option Nat)
  | .allocate size => do
      let address ← h.allocate size
      pure (some address)
  | .allocateAligned size align => do
      let address ← h.allocateAligned size align
      pure (some address)
  | .allocateZeroed count size => do
      let address ← h.allocateZeroed count size
      pure (some address)
  | .resize address newSize => do
      let address ← h.resize address newSize
      pure (some address)
  | .release address => do
      h.release address
      pure none

def Call.givenBack : Call → Option Nat
  | .resize address _ => some address
  | .release address => some address
  | _ => none

inductive Action where
  | call (call : Call)
  | setSplitFactor (splitFactor : Nat)
  | write (address : Nat) (bytes : List UInt8)
  deriving DecidableEq, Repr

structure Session where
  heap : BlockHeap
  memory : Memory
  live : List Nat

namespace Session

def reply (s : Session) : Action → Except HeapStop (Option Nat)
  | .call call =>
      match call.perform s.heap s.memory with
      | .ok given _ => .ok given
      | .error stop _ => .error stop
  | _ => .ok none

def after (s : Session) : Action → Session
  | .call call =>
      match call.perform s.heap s.memory with
      | .ok given memory =>
          { s with memory, live := given.toList ++ s.live.filter (call.givenBack ≠ some ·) }
      | .error _ memory => { s with memory }
  | .setSplitFactor splitFactor => { s with heap := s.heap.setSplitFactor splitFactor }
  | .write address bytes => { s with memory := s.memory.writeBytes address bytes }

/-- The bytes from `address` on lie in the usable part of the allocation at `p`. -/
def Owns (s : Session) (p address count : Nat) : Prop :=
  p ∈ s.live ∧ p ≤ address ∧
    ∃ n, s.heap.usableSize s.memory p = .ok n ∧ address + count ≤ p + n

def Honest (s : Session) : Action → Prop
  | .call call => ∀ p ∈ call.givenBack, p ∈ s.live
  | .setSplitFactor _ => True
  | .write address bytes => ∃ p, s.Owns p address bytes.length

/-- The sessions that follow `s` if every action is allowed where it is taken. -/
inductive Reaches (Allowed : Session → Action → Prop) (s : Session) : Session → Prop
  | refl : Reaches Allowed s s
  | step {s' : Session} {action : Action} :
      Reaches Allowed s s' → Allowed s' action → Reaches Allowed s (s'.after action)

/-- The pointers held are the payload addresses of the blocks in use. -/
structure Sound (s : Session) (blocks : List BlockInfo) : Prop where
  placed : s.heap.Placed
  wellFormed : s.heap.WellFormed s.memory blocks
  mem_live : ∀ p, p ∈ s.live ↔ ∃ b ∈ inUse blocks, s.heap.payloadAddress b.offset = p

end Session

inductive Call.Promise (h : BlockHeap) (m m' : Memory) :
    Call → Option BlockInfo → Option BlockInfo → Prop
  | allocate {size : Nat} {d : BlockInfo} : size ≤ d.size →
      Promise h m m' (.allocate size) none (some d)
  | allocateAligned {size align : Nat} {d : BlockInfo} : size ≤ d.size →
      Promise h m m' (.allocateAligned size align) none (some d)
  | allocateZeroed {count size : Nat} {d : BlockInfo} : count * size ≤ d.size →
      (∀ i, i < d.size → m'.read (h.payloadAddress d.offset + i) = 0) →
      Promise h m m' (.allocateZeroed count size) none (some d)
  | resize {newSize : Nat} {b d : BlockInfo} : newSize ≤ d.size →
      (∀ i, i < b.size → i < newSize →
        m'.read (h.payloadAddress d.offset + i) = m.read (h.payloadAddress b.offset + i)) →
      Promise h m m' (.resize (h.payloadAddress b.offset) newSize) (some b) (some d)
  | release {b : BlockInfo} :
      Promise h m m' (.release (h.payloadAddress b.offset)) (some b) none

structure Call.Succeeds (h : BlockHeap) (m : Memory) (blocks : List BlockInfo) (call : Call)
    (m' : Memory) (blocks' : List BlockInfo) (gone new : Option BlockInfo) : Prop where
  performed : call.perform h m = .ok (new.map (h.payloadAddress ·.offset)) m'
  mem_gone : ∀ b ∈ gone, b ∈ inUse blocks
  fresh : ∀ d ∈ new, ∀ e ∈ inUse blocks, e ∉ gone → e.offset ≠ d.offset
  promise : call.Promise h m m' gone new
  effect : h.Effect m blocks m' blocks' gone new

structure Call.Fails (h : BlockHeap) (m : Memory) (call : Call) (error : HeapError) : Prop where
  recoverable : error.isFatal = false
  performed : call.perform h m = .error (.report error) m
  no_release : ∀ address, call ≠ .release address

theorem Call.Promise.givenBack_eq {h : BlockHeap} {m m' : Memory} {call : Call}
    {gone new : Option BlockInfo} (hpromise : call.Promise h m m' gone new) :
    call.givenBack = gone.map (h.payloadAddress ·.offset) := by
  cases hpromise <;> rfl

namespace Session

variable {s : Session} {blocks : List BlockInfo}

/-! ## One call -/

theorem call_of_request {h : BlockHeap} {m : Memory} {call : Call} {request : HeapM Nat}
    (hperform : call.perform h = request >>= fun address => pure (some address))
    (hkind : ∀ address, call ≠ .release address)
    (houtcome : (∃ error : HeapError, error.isFatal = false ∧
        request m = .error (.report error) m) ∨
      ∃ d blocks' m', request m = .ok (h.payloadAddress d.offset) m' ∧
        call.Promise h m m' none (some d) ∧ (∀ e ∈ inUse blocks, e.offset ≠ d.offset) ∧
        h.Effect m blocks m' blocks' none (some d)) :
    (∃ error, call.Fails h m error) ∨
    ∃ m' blocks' gone new, call.Succeeds h m blocks m' blocks' gone new := by
  rcases houtcome with ⟨error, hrecoverable, hfail⟩ | ⟨d, blocks', m', hok, hpromise, hfresh, he⟩
  · left
    refine ⟨error, hrecoverable, ?_, hkind⟩
    rw [hperform]
    exact bind_of_error hfail
  · right
    refine ⟨m', blocks', none, some d, ?_, by simp, ?_, hpromise, he⟩
    · rw [hperform]
      exact bind_of_ok hok
    · intro e he' b hb _
      rw [← Option.some.inj he']
      exact hfresh b hb

theorem Sound.call (hs : s.Sound blocks) {call : Call} (hhonest : s.Honest (.call call)) :
    (∃ error, call.Fails s.heap s.memory error) ∨
    ∃ m' blocks' gone new, call.Succeeds s.heap s.memory blocks m' blocks' gone new := by
  have hp := hs.placed
  have hw := hs.wellFormed
  cases call with
  | allocate size =>
      refine call_of_request rfl nofun ?_
      rcases allocate_effect hp hw size with hfail | ⟨d, blocks', m', hok, hroom, -, hrest⟩
      · exact .inl hfail
      · exact .inr ⟨d, blocks', m', hok, .allocate hroom, hrest⟩
  | allocateAligned size align =>
      refine call_of_request rfl nofun ?_
      unfold allocateAligned
      split
      · rcases allocate_effect hp hw size with hfail | ⟨d, blocks', m', hok, hroom, -, hrest⟩
        · exact .inl hfail
        · exact .inr ⟨d, blocks', m', hok, .allocateAligned hroom, hrest⟩
      · exact .inl ⟨.unsupportedAlignment align, rfl, rfl⟩
  | allocateZeroed count size =>
      refine call_of_request rfl nofun ?_
      rcases allocateZeroed_effect hp hw count size with
        hfail | ⟨d, blocks', m', hok, hroom, -, hfresh, hzero, he⟩
      · exact .inl hfail
      · exact .inr ⟨d, blocks', m', hok, .allocateZeroed hroom hzero, hfresh, he⟩
  | resize address newSize =>
      obtain ⟨b, hb, rfl⟩ := (hs.mem_live address).1 (hhonest address rfl)
      rcases resize_effect hp hw hb newSize with
        ⟨error, hrecoverable, hfail⟩ | ⟨d, blocks', m', hok, hroom, -, hplace, hkept, he⟩
      · exact .inl ⟨error, hrecoverable, bind_of_error hfail, nofun⟩
      · -- a block that has moved is new; one that has stayed is the one given back
        right
        refine ⟨m', blocks', some b, some d, bind_of_ok hok, ?_, ?_, .resize hroom hkept, he⟩
        · intro b' hb'
          exact Option.some.inj hb' ▸ hb
        · intro d' hd' e hein hgone
          rw [← Option.some.inj hd']
          rcases hplace with hsame | hfresh
          · intro heq
            have heb := hw.tiles.eq_of_offset (mem_inUse.1 hein).1 (mem_inUse.1 hb).1
              (heq.trans hsame)
            exact hgone (congrArg some heb.symm)
          · exact hfresh e hein
  | release address =>
      obtain ⟨b, hb, rfl⟩ := (hs.mem_live address).1 (hhonest address rfl)
      obtain ⟨blocks', m', hok, he⟩ := release_effect hp hw hb
      right
      refine ⟨m', blocks', some b, none, bind_of_ok hok, ?_, by simp, .release, he⟩
      intro b' hb'
      exact Option.some.inj hb' ▸ hb

theorem after_of_error {call : Call} {stop : HeapStop}
    (hfail : call.perform s.heap s.memory = .error stop s.memory) :
    s.reply (.call call) = .error stop ∧ s.after (.call call) = s := by
  simp only [reply, after, hfail, and_self]

theorem after_of_ok {call : Call} {given : Option Nat} {m' : Memory}
    (hok : call.perform s.heap s.memory = .ok given m') :
    s.reply (.call call) = .ok given ∧
      s.after (.call call) = ⟨s.heap, m',
        given.toList ++ s.live.filter (call.givenBack ≠ some ·)⟩ := by
  simp only [reply, after, hok, and_self]

theorem payloadAddress_inj {h : BlockHeap} {o o' : Nat} :
    h.payloadAddress o = h.payloadAddress o' ↔ o = o' := by
  simp only [payloadAddress]
  omega

variable {call : Call} {m' : Memory} {blocks' : List BlockInfo} {gone new : Option BlockInfo}

theorem Sound.givenBack_iff (hs : s.Sound blocks)
    (hc : call.Succeeds s.heap s.memory blocks m' blocks' gone new) {b : BlockInfo}
    (hb : b ∈ inUse blocks) :
    call.givenBack = some (s.heap.payloadAddress b.offset) ↔ b ∈ gone := by
  rw [hc.promise.givenBack_eq, Option.map_eq_some_iff]
  constructor
  · rintro ⟨c, hgone, haddress⟩
    have hsame := hs.wellFormed.tiles.eq_of_offset (mem_inUse.1 (hc.mem_gone c hgone)).1
      (mem_inUse.1 hb).1 (payloadAddress_inj.1 haddress)
    exact hsame ▸ hgone
  · intro hgone
    exact ⟨b, hgone, rfl⟩

theorem Sound.after_call (hs : s.Sound blocks)
    (hc : call.Succeeds s.heap s.memory blocks m' blocks' gone new) :
    (s.after (.call call)).Sound blocks' := by
  rw [(after_of_ok hc.performed).2]
  refine ⟨hs.placed, hc.effect.wellFormed, ?_⟩
  intro p
  simp only [List.mem_append, Option.mem_toList, Option.map_eq_some_iff, List.mem_filter,
    hs.mem_live, decide_eq_true_eq]
  constructor
  · rintro (⟨d, hd, rfl⟩ | ⟨⟨b, hb, rfl⟩, hkept⟩)
    · exact ⟨d, (hc.effect.mem_inUse d).2 (.inl hd), rfl⟩
    · refine ⟨b, (hc.effect.mem_inUse b).2 (.inr ⟨hb, ?_⟩), rfl⟩
      intro hgone
      exact hkept ((hs.givenBack_iff hc hb).2 hgone)
  · rintro ⟨d, hd, rfl⟩
    rcases (hc.effect.mem_inUse d).1 hd with hnew | ⟨hin, hgone⟩
    · exact .inl ⟨d, hnew, rfl⟩
    · refine .inr ⟨⟨d, hin, rfl⟩, ?_⟩
      intro hback
      exact hgone ((hs.givenBack_iff hc hin).1 hback)

theorem linked_setSplitFactor {h : BlockHeap} {m : Memory} {previous : Option Nat}
    (splitFactor : Nat) (hl : h.Linked m previous blocks) :
    (h.setSplitFactor splitFactor).Linked m previous blocks := by
  induction blocks generalizing previous with
  | nil => trivial
  | cons b rest ih => exact ⟨hl.1, ih hl.2⟩

theorem Sound.after_setSplitFactor (hs : s.Sound blocks) (splitFactor : Nat) :
    (s.after (.setSplitFactor splitFactor)).Sound blocks := by
  obtain ⟨hbase, haligned, harena, hstop⟩ := hs.placed
  obtain ⟨ht, hl, hc⟩ := hs.wellFormed
  exact ⟨⟨hbase, haligned, harena, hstop⟩, ⟨ht, linked_setSplitFactor splitFactor hl, hc⟩,
    hs.mem_live⟩

theorem Sound.owned_block (hs : s.Sound blocks) {p address count : Nat}
    (ho : s.Owns p address count) :
    ∃ b ∈ inUse blocks, s.heap.payloadAddress b.offset = p ∧ p ≤ address ∧
      address + count ≤ p + b.size := by
  obtain ⟨hlive, hlow, n, husable, hhigh⟩ := ho
  obtain ⟨b, hb, rfl⟩ := (hs.mem_live p).1 hlive
  have hsize := usableSize_ok hs.placed hs.wellFormed (mem_inUse.1 hb).1 (mem_inUse.1 hb).2
  rw [hsize] at husable
  cases husable
  exact ⟨b, hb, rfl, hlow, hhigh⟩

theorem sameOutsidePayload_writeBytes {h : BlockHeap} {b : BlockInfo} {address : Nat}
    {bytes : List UInt8} (hlow : h.payloadAddress b.offset ≤ address)
    (hhigh : address + bytes.length ≤ h.payloadAddress b.offset + b.size) (m : Memory) :
    h.SameOutsidePayload b m (m.writeBytes address bytes) := by
  intro a ha
  apply Memory.read_writeBytes_of_outside
  by_contra hin
  exact ha (inPayload_iff.2 ⟨by omega, by omega⟩)

theorem Sound.after_write (hs : s.Sound blocks) {address : Nat} {bytes : List UInt8}
    (hhonest : s.Honest (.write address bytes)) :
    (s.after (.write address bytes)).Sound blocks := by
  obtain ⟨p, ho⟩ := hhonest
  obtain ⟨b, hb, rfl, hlow, hhigh⟩ := hs.owned_block ho
  have hsame := sameOutsidePayload_writeBytes hlow hhigh s.memory
  exact ⟨hs.placed, hs.wellFormed.of_payload (mem_inUse.1 hb).1 hsame, hs.mem_live⟩

theorem Sound.after (hs : s.Sound blocks) {action : Action} (hhonest : s.Honest action) :
    ∃ blocks', (s.after action).Sound blocks' := by
  cases action with
  | call call =>
      rcases hs.call hhonest with ⟨error, -, hfail⟩ | ⟨m', blocks', gone, new, hc⟩
      · rw [(after_of_error hfail).2]
        exact ⟨blocks, hs⟩
      · exact ⟨blocks', hs.after_call hc⟩
  | setSplitFactor splitFactor => exact ⟨blocks, hs.after_setSplitFactor splitFactor⟩
  | write address bytes => exact ⟨blocks, hs.after_write hhonest⟩

/-! ## Runs -/

theorem Reaches.invariant {Allowed : Session → Action → Prop} {P : Session → Prop}
    {s s' : Session} (hr : Reaches Allowed s s') (hstart : P s)
    (hstep : ∀ t action, P t → Allowed t action → P (t.after action)) : P s' := by
  induction hr with
  | refl => exact hstart
  | step _ hallowed ih => exact hstep _ _ ih hallowed

theorem sound_of_init {h₀ h : BlockHeap} {start size : Nat} {m₀ m : Memory}
    (hregion : start + size ≤ Word.limit) (hinit : h₀.init start size m₀ = .ok h m) :
    (⟨h, m, []⟩ : Session).Sound [⟨0, h.arenaSize - headerSize, true⟩] := by
  obtain ⟨hp, hw, -⟩ := init_spec hregion hinit
  exact ⟨hp, hw, by simp [inUse]⟩

/--
Along every honest run the heap stays well-formed.  A call that fails there
reports an error from which the client can recover and has written nothing.
-/
theorem honest_run_well_formed {h₀ h : BlockHeap} {start size : Nat} {m₀ m : Memory}
    {s : Session} (hregion : start + size ≤ Word.limit)
    (hinit : h₀.init start size m₀ = .ok h m) (hrun : Reaches Honest ⟨h, m, []⟩ s) :
    s.heap.check s.memory = .ok () ∧
      s.heap.WellFormed s.memory (s.heap.blocks s.memory) ∧
      ∀ call stop m', s.Honest (.call call) →
        call.perform s.heap s.memory = .error stop m' →
        m' = s.memory ∧ ∃ error : HeapError, stop = .report error ∧ error.isFatal = false := by
  have hsound : ∃ blocks, s.Sound blocks := by
    apply hrun.invariant (P := fun s => ∃ blocks, s.Sound blocks)
    · exact ⟨_, sound_of_init hregion hinit⟩
    · rintro t action ⟨blocks, hs⟩ hhonest
      exact hs.after hhonest
  obtain ⟨blocks, hs⟩ := hsound
  have hw := hs.wellFormed
  refine ⟨hw.check_ok hs.placed, ?_, ?_⟩
  · rw [hw.blocks_eq hs.placed]
    exact hw
  · intro call stop m' hhonest hfail
    rcases hs.call hhonest with ⟨error, hrecoverable, herror⟩ | ⟨_, _, _, _, hc⟩
    · rw [herror] at hfail
      cases hfail
      exact ⟨rfl, error, rfl, hrecoverable⟩
    · rw [hc.performed] at hfail
      cases hfail

def smallSession : Session :=
  ⟨⟨64, 256, 2⟩, Header.write (Memory.ofBytes 0 ByteArray.empty) 64 ⟨true, 224, none, none⟩, []⟩

theorem init_smallSession :
    (uninitialized 2).init 64 256 (Memory.ofBytes 0 ByteArray.empty) =
      .ok smallSession.heap smallSession.memory := rfl

theorem well_formed_after_release :
    let s := (smallSession.after (.call (.allocate 40))).after (.call (.release 96))
    Reaches Honest smallSession s ∧ s.heap.check s.memory = .ok () ∧
      s.heap.WellFormed s.memory (s.heap.blocks s.memory) := by
  intro s
  have hallocate : smallSession.Honest (.call (.allocate 40)) := by
    intro p hp
    cases hp
  have hrelease : (smallSession.after (.call (.allocate 40))).Honest (.call (.release 96)) := by
    intro p hp
    cases hp
    decide +kernel
  have hrun : Reaches Honest smallSession s := (Reaches.refl.step hallocate).step hrelease
  have hwell := honest_run_well_formed (by decide) init_smallSession hrun
  exact ⟨hrun, hwell.1, hwell.2.1⟩

end Session

end EarlyBoot.BlockHeap
