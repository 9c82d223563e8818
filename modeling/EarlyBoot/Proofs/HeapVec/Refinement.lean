import EarlyBoot.Proofs.HeapVec.Workspace

/-!
# Vectors refine lists

The client of a workspace pushes, pops, clears, assigns and discards, makes heap
requests for other purposes, and writes to the blocks of these.  The same run on
plain lists is followed alongside; the answers tell it which pushes were
refused.  Whatever the other clients do, as long as they are honest, the vectors
and the plain lists stay the same.
-/

namespace EarlyBoot

open BlockHeap (inUse alignment Call)
open BlockHeap.Session (Honest)

namespace Workspace

variable {ι : Type} {α : ι → Type}

inductive Action (α : ι → Type) where
  | push (i : ι) (x : α i)
  | pop (i : ι)
  | clear (i : ι)
  /-- Drops the element at an index and puts another in its place. -/
  | assign (i : ι) (index : Nat) (x : α i)
  /-- Drops the vector and starts a new one. -/
  | discard (i : ι)
  | request (call : Call)
  | write (address : Nat) (bytes : List UInt8)
  | setSplitFactor (splitFactor : Nat)

def Action.Reply : Action α → Type
  | .push _ _ => Except HeapError Unit
  | .pop i => Option (α i)
  | .request _ => Except HeapError (Option Nat)
  | _ => Unit

variable [DecidableEq ι]

def plain (lists : (i : ι) → List (α i)) :
    (action : Action α) → action.Reply → (i : ι) → List (α i)
  | .push i x, .ok () => Function.update lists i (lists i ++ [x])
  | .push _ _, .error _ => lists
  | .pop i, _ => Function.update lists i (lists i).dropLast
  | .clear i, _ => Function.update lists i []
  | .assign i index x, _ => Function.update lists i ((lists i).set index x)
  | .discard i, _ => Function.update lists i []
  | .request _, _ => lists
  | .write _ _, _ => lists
  | .setSplitFactor _, _ => lists

def Agrees (lists : (i : ι) → List (α i)) : (action : Action α) → action.Reply → Prop
  | .pop i, reply => reply = (lists i).getLast?
  | _, _ => True

/-! ## Actions -/

variable [∀ i, Stored (α i)] [∀ i, Owned (α i)]

/-- Runs a computation of the firmware; `next` says what is answered and what the vectors become. -/
def carry {β γ : Type} (w : Workspace α) (x : FirmwareM β)
    (next : β → γ × ((i : ι) → HeapVec (α i))) : EStateM.Result Halt (Workspace α) γ :=
  match x w.firmware with
  | .ok value firmware => .ok (next value).1 ⟨firmware, (next value).2⟩
  | .error reason firmware => .error reason { w with firmware }

def perform (w : Workspace α) : (action : Action α) →
    EStateM.Result Halt (Workspace α) action.Reply
  | .push i x => w.carry ((w.vecs i).push x) fun
      | .ok v => (.ok (), Function.update w.vecs i v)
      | .error error => (.error error, w.vecs)
  | .pop i => w.carry (w.vecs i).pop fun
      | some (x, v) => (some x, Function.update w.vecs i v)
      | none => (none, w.vecs)
  | .clear i => w.carry (w.vecs i).clear fun v => ((), Function.update w.vecs i v)
  | .assign i index x =>
      w.carry (do
        Owned.drop (← (w.vecs i).get index)
        (w.vecs i).set index x) fun _ => ((), w.vecs)
  | .discard i => w.carry (Owned.drop (w.vecs i)) fun _ => ((), Function.update w.vecs i .empty)
  | .request call => w.carry (Heap.request call) fun reply => (reply, w.vecs)
  | .write address bytes =>
      w.carry (FirmwareM.change (·.writeBytes address bytes)) fun _ => ((), w.vecs)
  | .setSplitFactor splitFactor => w.carry (Heap.setSplitFactor splitFactor) fun _ => ((), w.vecs)

/--
An assignment is in range, drops are harmless, and what is given back or written
to by name belongs to no vector.
-/
def Allowed (w : Workspace α) : Action α → Prop
  | .push i x => ∀ error f, (w.vecs i).reserve w.firmware = .ok (.error error) f →
      Harmless { w with firmware := f } (Owned.drop x)
  | .pop _ => True
  | .clear i => w.Harmless (Owned.dropAll (w.contents i))
  | .assign i index _ => ∃ old, (w.contents i)[index]? = some old ∧ w.Harmless (Owned.drop old)
  | .discard i => w.Harmless (Owned.dropAll (w.contents i))
  | .request call => ∀ p ∈ call.givenBack, w.Elsewhere p
  | .write address bytes => ∃ p n, w.Elsewhere p ∧ p ≤ address ∧
      w.firmware.heap.usableSize w.firmware.memory p = .ok n ∧ address + bytes.length ≤ p + n
  | .setSplitFactor _ => True

def fresh (f : Firmware) : Workspace α := ⟨f, fun _ => .empty⟩

/-- What may be reached from new vectors, and what the same run makes of empty lists. -/
inductive Reaches (f : Firmware) : Workspace α → ((i : ι) → List (α i)) → Prop
  | refl : Reaches f (fresh f) fun _ => []
  | step {w w' : Workspace α} {lists : (i : ι) → List (α i)} {action : Action α}
      {reply : action.Reply} : Reaches f w lists → w.Allowed action →
      w.perform action = .ok reply w' → Reaches f w' (plain lists action reply)

omit [DecidableEq ι] in
theorem allowed_plain (w : Workspace α) (hplain : ∀ i (x : α i), Owned.drop x = pure ())
    (i : ι) (x : α i) :
    w.Allowed (.push i x) ∧ w.Allowed (.clear i) ∧ w.Allowed (.discard i) ∧
      ∀ index, index < (w.contents i).length → w.Allowed (.assign i index x) := by
  refine ⟨?_, w.harmless_plain (hplain i) _, w.harmless_plain (hplain i) _, ?_⟩
  · intro error f _
    rw [hplain]
    exact harmless_pure _
  · intro index hindex
    refine ⟨_, List.getElem?_eq_getElem hindex, ?_⟩
    rw [hplain]
    exact w.harmless_pure

variable {w w' : Workspace α} {f' : Firmware} {blocks : List BlockInfo} {i : ι}

def Proceeds (w : Workspace α) (action : Action α) : Prop :=
  ∃ reply w' blocks', w.perform action = .ok reply w' ∧ w'.Sound blocks' ∧
    Agrees w.contents action reply ∧ w'.contents = plain w.contents action reply

omit [DecidableEq ι] [∀ i, Stored (α i)] [∀ i, Owned (α i)] in
theorem carry_of_ok {β γ : Type} {x : FirmwareM β} {next : β → γ × ((i : ι) → HeapVec (α i))}
    {value : β} (hx : x w.firmware = .ok value f') :
    w.carry x next = .ok (next value).1 ⟨f', (next value).2⟩ := by
  unfold carry
  rw [hx]

omit [DecidableEq ι] [∀ i, Stored (α i)] [∀ i, Owned (α i)] in
theorem carry_of_halt {β γ : Type} {x : FirmwareM β} {next : β → γ × ((i : ι) → HeapVec (α i))}
    {reason : Halt} (hx : x w.firmware = .error reason f') :
    w.carry x next = .error reason { w with firmware := f' } := by
  unfold carry
  rw [hx]

omit [DecidableEq ι] [∀ i, Owned (α i)] in
theorem Sound.untouched (hs : w.Sound blocks) (huntouched : w.firmware.Untouched f') :
    Sound { w with firmware := f' } blocks ∧
      contents { w with firmware := f' } = w.contents := by
  refine ⟨⟨?_, ?_, ?_, hs.apart⟩, ?_⟩
  · rw [huntouched.heap]
    exact hs.placed
  · rw [huntouched.heap, huntouched.memory]
    exact hs.wellFormed
  · rw [huntouched.heap]
    exact hs.backed
  · funext j
    unfold contents
    rw [huntouched.memory]

theorem Sound.push (hs : w.Sound blocks) (halign : Stored.align (α i) ≤ alignment) {x : α i}
    (hallowed : w.Allowed (.push i x)) : w.Proceeds (.push i x) := by
  rcases (hs.backed i).push hs.placed hs.wellFormed halign x with
    ⟨-, error, f₁, hreserve, huntouched, -, -, hrun⟩ | ⟨v, f', blocks', hrun, hb⟩
  · obtain ⟨hs₁, hcontents⟩ := hs.untouched huntouched
    obtain ⟨f', blocks', hdrop, hs', hsame⟩ := hs₁.harmless (hallowed error f₁ hreserve)
    have hpush : (w.vecs i).push x w.firmware = .ok (.error error) f' :=
      hrun.trans (bind_of_answer hdrop)
    exact ⟨.error error, _, blocks', carry_of_ok hpush, hs', trivial, hsame.trans hcontents⟩
  · obtain ⟨hs', hcontents⟩ := hs.update hb
    exact ⟨.ok (), _, blocks', carry_of_ok hrun, hs', trivial, hcontents⟩

theorem Sound.pop (hs : w.Sound blocks) (i : ι) : w.Proceeds (.pop i) := by
  rcases (hs.backed i).pop hs.placed hs.wellFormed with
    ⟨hnil, hrun⟩ | ⟨xs, x, v, hlast, hrun, hb⟩
  · have hempty : w.contents i = [] := hnil
    refine ⟨none, w, blocks, carry_of_ok hrun, hs, ?_, ?_⟩
    · change none = (w.contents i).getLast?
      rw [hempty]
      rfl
    · change w.contents = Function.update w.contents i (w.contents i).dropLast
      rw [hempty, List.dropLast_nil, ← hempty, Function.update_eq_self]
  · have hsplit : w.contents i = xs ++ [x] := hlast
    obtain ⟨hs', hcontents⟩ := hs.update hb
    refine ⟨some x, _, blocks, carry_of_ok hrun, hs', ?_, ?_⟩
    · change some x = (w.contents i).getLast?
      rw [hsplit, List.getLast?_append, List.getLast?_singleton]
      rfl
    · change _ = Function.update w.contents i (w.contents i).dropLast
      rw [hsplit, List.dropLast_concat]
      exact hcontents

omit [DecidableEq ι] in
theorem Sound.dropElements (hs : w.Sound blocks)
    (hharmless : w.Harmless (Owned.dropAll (w.contents i))) :
    ∃ f' blocks', (w.vecs i).dropElements w.firmware = .ok () f' ∧
      Sound { w with firmware := f' } blocks' ∧
      contents { w with firmware := f' } = w.contents := by
  obtain ⟨f', blocks', hdrop, hs', hsame⟩ := hs.harmless hharmless
  have helements : (w.vecs i).elements w.firmware = .ok (w.contents i) w.firmware := rfl
  exact ⟨f', blocks', (bind_of_answer helements).trans hdrop, hs', hsame⟩

theorem Sound.clear (hs : w.Sound blocks) (hallowed : w.Allowed (.clear i)) :
    w.Proceeds (.clear i) := by
  obtain ⟨f', blocks', hdrop, hs', hsame⟩ := hs.dropElements hallowed
  have hrun : (w.vecs i).clear w.firmware = .ok (w.vecs i).cleared f' :=
    bind_of_answer hdrop
  obtain ⟨hs'', hcontents⟩ := hs'.update
    ((hs'.backed i).truncated hs'.placed hs'.wellFormed (Nat.zero_le _))
  refine ⟨(), _, blocks', carry_of_ok hrun, hs'', trivial, ?_⟩
  rw [← hsame]
  exact hcontents

theorem Sound.discard (hs : w.Sound blocks) (hsize : 0 < Stored.size (α i))
    (hallowed : w.Allowed (.discard i)) : w.Proceeds (.discard i) := by
  obtain ⟨f₁, blocks₁, hdrop, hs₁, hsame⟩ := hs.dropElements hallowed
  obtain ⟨f', blocks', hfree, hb⟩ :=
    (hs₁.backed i).release hs₁.placed hs₁.wellFormed hsize
  have hrun : Owned.drop (w.vecs i) w.firmware = .ok () f' :=
    (bind_of_answer hdrop).trans hfree
  obtain ⟨hs', hcontents⟩ := hs₁.update hb
  refine ⟨(), _, blocks', carry_of_ok hrun, hs', trivial, ?_⟩
  rw [← hsame]
  exact hcontents

theorem Sound.assign (hs : w.Sound blocks) {index : Nat} {x : α i}
    (hallowed : w.Allowed (.assign i index x)) : w.Proceeds (.assign i index x) := by
  obtain ⟨old, hold, hharmless⟩ := hallowed
  obtain ⟨hbound, rfl⟩ := List.getElem?_eq_some_iff.1 hold
  have hindex : index < (w.vecs i).length := by
    simpa [contents] using hbound
  obtain ⟨f₁, blocks₁, hdrop, hs₁, hsame⟩ := hs.harmless hharmless
  obtain ⟨f', hset, hb⟩ := (hs₁.backed i).set hs₁.placed hs₁.wellFormed hindex x
  have hget : (w.vecs i).get index w.firmware = .ok (w.contents i)[index] w.firmware := by
    unfold HeapVec.get
    rw [if_pos hindex]
    simp only [contents, HeapVec.getElem_toList]
    rfl
  have hrun : (do
      Owned.drop (← (w.vecs i).get index)
      (w.vecs i).set index x : FirmwareM Unit) w.firmware = .ok () f' :=
    (bind_of_answer hget).trans ((bind_of_answer hdrop).trans hset)
  obtain ⟨hs', hcontents⟩ := hs₁.update hb
  rw [Function.update_eq_self] at hs' hcontents
  refine ⟨(), _, blocks₁, carry_of_ok hrun, hs', trivial, ?_⟩
  rw [← hsame]
  exact hcontents

theorem Sound.request (hs : w.Sound blocks) {call : Call}
    (hallowed : w.Allowed (.request call)) : w.Proceeds (.request call) := by
  have hheld : ∀ p ∈ call.givenBack.toList, w.Elsewhere p :=
    fun p hp => hallowed p (Option.mem_toList.1 hp)
  have hshares := hs.shares_elsewhere hheld
  obtain ⟨reply, f', held', hrun, hreaches⟩ :=
    Heap.request_reaches hshares fun p hp => Option.mem_toList.2 hp
  obtain ⟨blocks', hspares⟩ := hreaches.spares hshares
  obtain ⟨hs', hsame⟩ := hs.spared f' hheld hspares
  exact ⟨reply, _, blocks', carry_of_ok hrun, hs', trivial, hsame⟩

theorem Sound.write (hs : w.Sound blocks) {address : Nat} {bytes : List UInt8}
    (hallowed : w.Allowed (.write address bytes)) : w.Proceeds (.write address bytes) := by
  obtain ⟨p, n, helse, hlow, husable, hhigh⟩ := hallowed
  have hheld : ∀ q ∈ [p], w.Elsewhere q := by
    intro q hq
    exact List.mem_singleton.1 hq ▸ helse
  have hhonest : Honest ⟨w.firmware.heap, w.firmware.memory, [p]⟩ (.write address bytes) :=
    ⟨p, List.mem_singleton_self p, hlow, n, husable, hhigh⟩
  have hspares := (hs.shares_elsewhere hheld).write hhonest
  obtain ⟨hs', hsame⟩ := hs.spared
    { w.firmware with memory := w.firmware.memory.writeBytes address bytes } hheld hspares
  exact ⟨(), _, blocks, rfl, hs', trivial, hsame⟩

theorem Sound.setSplitFactor (hs : w.Sound blocks) (splitFactor : Nat) :
    w.Proceeds (.setSplitFactor splitFactor) := by
  have hnone : ∀ p ∈ ([] : List Nat), w.Elsewhere p := by simp
  have hhonest : Honest ⟨w.firmware.heap, w.firmware.memory, []⟩ (.setSplitFactor splitFactor) :=
    trivial
  obtain ⟨blocks', hspares⟩ := (hs.shares_elsewhere hnone).after hhonest
  obtain ⟨hs', hsame⟩ := hs.spared
    { w.firmware with heap := w.firmware.heap.setSplitFactor splitFactor } hnone hspares
  exact ⟨(), _, blocks', rfl, hs', trivial, hsame⟩

theorem Sound.proceeds (hs : w.Sound blocks) (hsizes : ∀ i, 0 < Stored.size (α i))
    (haligns : ∀ i, Stored.align (α i) ≤ alignment) {action : Action α}
    (hallowed : w.Allowed action) : w.Proceeds action := by
  cases action with
  | push i x => exact hs.push (haligns i) hallowed
  | pop i => exact hs.pop i
  | clear i => exact hs.clear hallowed
  | assign i index x => exact hs.assign hallowed
  | discard i => exact hs.discard (hsizes i) hallowed
  | request call => exact hs.request hallowed
  | write address bytes => exact hs.write hallowed
  | setSplitFactor splitFactor => exact hs.setSplitFactor splitFactor

theorem Sound.refused_push (hs : w.Sound blocks) (halign : Stored.align (α i) ≤ alignment)
    {x : α i} {error : HeapError} (hrun : w.perform (.push i x) = .ok (.error error) w') :
    (w.vecs i).length = (w.vecs i).capacity ∧ error.IsExhaustion ∧
      (w.vecs i).Stuck w.firmware error ∧ w'.vecs = w.vecs ∧
      ∃ f, w.firmware.Untouched f ∧ Owned.drop x f = .ok () w'.firmware := by
  rcases (hs.backed i).push hs.placed hs.wellFormed halign x with
    ⟨hfull, reason, f₁, -, huntouched, hexhausted, hstuck, hpush⟩ | ⟨v, f', blocks', hpush, -⟩
  · cases hdrop : Owned.drop x f₁ with
    | ok _ f' =>
        have hanswer : (w.vecs i).push x w.firmware = .ok (.error reason) f' :=
          hpush.trans (bind_of_answer hdrop)
        have hperform : w.perform (.push i x) = .ok (.error reason) ⟨f', w.vecs⟩ :=
          carry_of_ok hanswer
        rw [hperform] at hrun
        cases hrun
        exact ⟨hfull, hexhausted, hstuck, rfl, f₁, huntouched, hdrop⟩
    | error halt f' =>
        have hanswer : (w.vecs i).push x w.firmware = .error halt f' :=
          hpush.trans (bind_of_halt hdrop)
        have hperform : w.perform (.push i x) = .error halt ⟨f', w.vecs⟩ :=
          carry_of_halt hanswer
        rw [hperform] at hrun
        cases hrun
  · have hperform : w.perform (.push i x) = .ok (.ok ()) ⟨f', Function.update w.vecs i v⟩ :=
      carry_of_ok hpush
    rw [hperform] at hrun
    cases hrun

/-! ## Runs -/

theorem Reaches.sound {f : Firmware} {lists : (i : ι) → List (α i)}
    (hrun : Reaches f w lists) (hs : ∃ blocks, (fresh f : Workspace α).Sound blocks)
    (hsizes : ∀ i, 0 < Stored.size (α i)) (haligns : ∀ i, Stored.align (α i) ≤ alignment) :
    (∃ blocks, w.Sound blocks) ∧ w.contents = lists := by
  induction hrun with
  | refl => exact ⟨hs, rfl⟩
  | step _ hallowed hperform ih =>
      obtain ⟨⟨blocks, hs⟩, rfl⟩ := ih
      obtain ⟨reply, w', blocks', hrun, hs', -, hcontents⟩ :=
        hs.proceeds hsizes haligns hallowed
      rw [hperform] at hrun
      cases hrun
      exact ⟨⟨blocks', hs'⟩, hcontents⟩

omit [DecidableEq ι] [∀ i, Owned (α i)] in
theorem sound_fresh {f₀ f : Firmware} {start size : Nat} (hregion : start + size ≤ Word.limit)
    (hinit : Heap.init start size f₀ = .ok (.ok ()) f) (hsizes : ∀ i, 0 < Stored.size (α i)) :
    ∃ blocks, (fresh f : Workspace α).Sound blocks := by
  obtain ⟨hp, hw, -⟩ := BlockHeap.init_spec hregion (Heap.init_eq_ok hinit)
  refine ⟨_, hp, hw, fun i => HeapVec.backed_empty (hsizes i) _ _, ?_⟩
  intro i j p hi
  exact absurd (HeapVec.capacity_empty (hsizes i)) (HeapVec.mem_pointers.1 hi).1

/-- The vector has room for its elements in a block in use, which is found at its address. -/
structure Housed (w : Workspace α) (i : ι) : Prop where
  length_le : (w.vecs i).length ≤ (w.vecs i).capacity
  capacity_eq : (w.vecs i).capacity = 0 ∨ ∃ k, (w.vecs i).capacity = 4 * 2 ^ k
  block : (w.vecs i).capacity ≠ 0 →
    ∃ b ∈ inUse (w.firmware.heap.blocks w.firmware.memory),
      w.firmware.heap.payloadAddress b.offset = (w.vecs i).address ∧
      w.firmware.heap.usableSize w.firmware.memory (w.vecs i).address = .ok b.size ∧
      (w.vecs i).capacity * Stored.size (α i) ≤ b.size

omit [DecidableEq ι] [∀ i, Owned (α i)] in
theorem Sound.housed (hs : w.Sound blocks) (i : ι) : w.Housed i := by
  have hv := hs.backed i
  refine ⟨hv.length_le, hv.capacity_eq, ?_⟩
  intro hcapacity
  obtain ⟨b, hb, haddress, hroom⟩ := hv.block hcapacity
  obtain ⟨hmem, hused⟩ := BlockHeap.mem_inUse.1 hb
  rw [hs.wellFormed.blocks_eq hs.placed]
  refine ⟨b, hb, haddress, ?_, hroom⟩
  rw [← haddress]
  exact BlockHeap.usableSize_ok hs.placed hs.wellFormed hmem hused

/--
Vectors that share a heap refine plain lists.  After any run in which the other
clients are honest, the vectors stand for the plain lists of the same run, every
vector has a live block of its own, and the next action is answered as by lists.
A push that fails found its vector full, and there is no next capacity or the
heap refuses the bytes for it with just this error; it has dropped the rejected
element and done nothing else.
-/
theorem vectors_refine_lists {f₀ f : Firmware} {start size : Nat}
    {lists : (i : ι) → List (α i)} (hregion : start + size ≤ Word.limit)
    (hinit : Heap.init start size f₀ = .ok (.ok ()) f)
    (hsizes : ∀ i, 0 < Stored.size (α i)) (haligns : ∀ i, Stored.align (α i) ≤ 32)
    (hrun : Reaches f w lists) :
    w.contents = lists ∧ (∀ i, w.Housed i) ∧
      (∀ i j, i ≠ j → (w.vecs i).capacity ≠ 0 → (w.vecs j).capacity ≠ 0 →
        (w.vecs i).address ≠ (w.vecs j).address) ∧
      (∀ action, w.Allowed action → ∃ reply w', w.perform action = .ok reply w' ∧
        Agrees lists action reply) ∧
      ∀ i x error w', w.perform (.push i x) = .ok (.error error) w' →
        (w.vecs i).length = (w.vecs i).capacity ∧ error.IsExhaustion ∧
          (w.vecs i).Stuck w.firmware error ∧ w'.vecs = w.vecs ∧
          ∃ f, w.firmware.Untouched f ∧ Owned.drop x f = .ok () w'.firmware := by
  obtain ⟨⟨blocks, hs⟩, rfl⟩ := hrun.sound (sound_fresh hregion hinit hsizes) hsizes haligns
  refine ⟨rfl, hs.housed, ?_, ?_, fun i x error w' => hs.refused_push (haligns i)⟩
  · intro i j hne hi hj haddress
    exact hne (hs.apart i j _ (HeapVec.mem_pointers.2 ⟨hi, rfl⟩)
      (HeapVec.mem_pointers.2 ⟨hj, haddress⟩))
  · intro action hallowed
    obtain ⟨reply, w', -, hperform, -, hagrees, -⟩ := hs.proceeds hsizes haligns hallowed
    exact ⟨reply, w', hperform, hagrees⟩

def narrowFirmware : Firmware :=
  ⟨Header.write (Memory.ofBytes 0 ByteArray.empty) 64 ⟨true, 32, none, none⟩, ⟨64, 64, 2⟩,
    .silent .error, .empty⟩

theorem init_narrowFirmware :
    Heap.init 64 64 ⟨Memory.ofBytes 0 ByteArray.empty, .uninitialized 2, .silent .error, .empty⟩ =
      .ok (.ok ()) narrowFirmware := rfl

theorem lists_after_refusal :
    ∃ w w' : Workspace fun _ : Bool => UInt64,
      Reaches narrowFirmware w (Function.update (fun _ => []) true [7]) ∧
      w.perform (.push false 9) = .ok (.error (.outOfMemory 32)) w' ∧
      w'.contents = Function.update (fun _ => []) true [7] ∧ w'.Housed true := by
  have hallowed : ∀ (w : Workspace fun _ : Bool => UInt64) (i : Bool) (x : UInt64),
      w.Allowed (.push i x) := fun w i x => (w.allowed_plain (fun _ _ => rfl) i x).1
  let first : EStateM Halt (Workspace fun _ : Bool => UInt64) (Except HeapError Unit) :=
    (perform · (.push true 7))
  let second : EStateM Halt (Workspace fun _ : Bool => UInt64) (Except HeapError Unit) :=
    (perform · (.push false 9))
  have hgranted : first.run' (fresh narrowFirmware) = some (.ok ()) := by decide +kernel
  have hrefused : (first >>= fun _ => second).run' (fresh narrowFirmware) =
      some (.error (.outOfMemory 32)) := by decide +kernel
  obtain ⟨w, hfirst⟩ := answer_of_run hgranted
  obtain ⟨w', hboth⟩ := answer_of_run hrefused
  have hsecond : second w = .ok (.error (.outOfMemory 32)) w' := by
    change EStateM.bind first _ _ = _ at hboth
    unfold EStateM.bind at hboth
    rwa [hfirst] at hboth
  have hrun := Reaches.refl.step (hallowed _ true 7) hfirst
  obtain ⟨hcontents, hhoused, -⟩ := vectors_refine_lists (by decide) init_narrowFirmware
    (fun _ => by decide) (fun _ => by decide) (hrun.step (hallowed w false 9) hsecond)
  exact ⟨w, w', hrun, hsecond, hcontents, hhoused true⟩

end Workspace

end EarlyBoot
