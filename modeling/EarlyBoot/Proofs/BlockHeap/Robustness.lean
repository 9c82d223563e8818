import EarlyBoot.Proofs.BlockHeap.Containment
import EarlyBoot.Proofs.BlockHeap.Session

/-!
# Operating on an arbitrary arena

No damage to the arena makes an operation reach outside it.  A computation is
contained if it carries two memories that agree in the arena to the same
outcome and again to the same arena, and leaves every byte outside the arena of
either memory as it was.  Hence no byte outside the arena is written, and none
has an influence on what happens inside.  An error is always a report: no sum
or difference leaves the word range.
-/

namespace EarlyBoot.BlockHeap

open MemoryM (inspect)

variable {h : BlockHeap} {m m' n n' : Memory} {α β : Type}

/-- From `m` and `m'` on, both memories were written alike, and in the arena only. -/
structure WrittenAlike (h : BlockHeap) (m m' n n' : Memory) : Prop where
  agree : h.Agree n n'
  outside : ∀ a, h.Outside a → n.read a = m.read a ∧ n'.read a = m'.read a

inductive Alike (h : BlockHeap) (post : α → Prop) (m m' : Memory) :
    EStateM.Result HeapStop Memory α → EStateM.Result HeapStop Memory α → Prop
  | ok {value : α} {n n' : Memory} : post value → h.WrittenAlike m m' n n' →
      Alike h post m m' (.ok value n) (.ok value n')
  | report {error : HeapError} {n n' : Memory} : h.WrittenAlike m m' n n' →
      Alike h post m m' (.error (.report error) n) (.error (.report error) n')

def Contained (h : BlockHeap) (x : HeapM α) (post : α → Prop) : Prop :=
  ∀ m m', h.Agree m m' → h.Alike post m m' (x m) (x m')

theorem WrittenAlike.refl (ha : h.Agree m m') : h.WrittenAlike m m' m m' :=
  ⟨ha, fun _ _ => ⟨rfl, rfl⟩⟩

theorem WrittenAlike.trans {k k' : Memory} (h₁ : h.WrittenAlike m m' n n')
    (h₂ : h.WrittenAlike n n' k k') : h.WrittenAlike m m' k k' :=
  ⟨h₂.agree, fun a ha => ⟨(h₂.outside a ha).1.trans (h₁.outside a ha).1,
    (h₂.outside a ha).2.trans (h₁.outside a ha).2⟩⟩

namespace Alike

variable {post : α → Prop} {r r' : EStateM.Result HeapStop Memory α}

theorem after (hr : h.Alike post n n' r r') (hw : h.WrittenAlike m m' n n') :
    h.Alike post m m' r r' := by
  cases hr with
  | ok hpost hw' => exact .ok hpost (hw.trans hw')
  | report hw' => exact .report (hw.trans hw')

theorem bind {post' : β → Prop} {x : HeapM α} {f : α → HeapM β}
    (hx : h.Alike post m m' (x m) (x m'))
    (hf : ∀ value n n', post value → x m = .ok value n → h.Agree n n' →
      h.Alike post' n n' (f value n) (f value n')) :
    h.Alike post' m m' ((x >>= f) m) ((x >>= f) m') := by
  change h.Alike post' m m' (EStateM.bind x f m) (EStateM.bind x f m')
  unfold EStateM.bind
  generalize x m = r, x m' = r' at hx hf
  cases hx with
  | ok hpost hw => exact (hf _ _ _ hpost rfl hw.agree).after hw
  | report hw => exact .report hw

end Alike

namespace Contained

variable {post : α → Prop}

theorem bind {post' : β → Prop} {x : HeapM α} {f : α → HeapM β} (hx : h.Contained x post)
    (hf : ∀ value, post value → h.Contained (f value) post') : h.Contained (x >>= f) post' :=
  fun m m' ha => (hx m m' ha).bind fun value n n' hpost _ ha' => hf value hpost n n' ha'

theorem mono {post' : α → Prop} {x : HeapM α} (hx : h.Contained x post)
    (hsub : ∀ value, post value → post' value) : h.Contained x post' := by
  intro m m' ha
  have halike := hx m m' ha
  generalize x m = r, x m' = r' at halike ⊢
  cases halike with
  | ok hpost hw => exact .ok (hsub _ hpost) hw
  | report hw => exact .report hw

theorem pure {value : α} (hpost : post value) : h.Contained (pure value) post :=
  fun _ _ ha => .ok hpost (.refl ha)

theorem report (error : HeapError) : h.Contained (HeapM.report error : HeapM α) post :=
  fun _ _ ha => .report (.refl ha)

theorem inspect {query : Memory → Except HeapStop α} (hq : h.ContainedQuery query post) :
    h.Contained (inspect query) post := by
  intro m m' ha
  obtain ⟨heq, hsafe⟩ := hq m m' ha
  unfold MemoryM.inspect
  rw [← heq]
  generalize query m = result at hsafe
  cases hsafe with
  | ok hpost => exact .ok hpost (.refl ha)
  | report => exact .report (.refl ha)

theorem lift {result : Except HeapStop α} (hs : Safe post result) :
    h.Contained (liftM result) post :=
  inspect (.const hs)

theorem post_of_ok {x : HeapM α} {value : α} (hx : h.Contained x post)
    (hok : x m = .ok value m') : post value := by
  have halike := hx m m (.refl h m)
  rw [hok] at halike
  cases halike
  assumption

theorem not_overflow {x : HeapM α} (hx : h.Contained x post) :
    x m ≠ .error .overflow m' := by
  intro hfail
  have halike := hx m m (.refl h m)
  rw [hfail] at halike
  cases halike

end Contained

/-! ## Edits -/

theorem writtenAlike_header {o : Nat} {f : Memory → Memory} (hbounds : h.InBounds o)
    (hcongr : ∀ m m' a, m.read a = m'.read a → (f m).read a = (f m').read a)
    (hkept : ∀ m a, a < h.base + o ∨ h.base + o + headerSize ≤ a → (f m).read a = m.read a)
    (ha : h.Agree m m') : h.WrittenAlike m m' (f m) (f m') := by
  constructor
  · intro a hin
    exact hcongr m m' a (ha a hin)
  · intro a hout
    have houtside : a < h.base + o ∨ h.base + o + headerSize ≤ a := by
      by_contra hin
      exact inside_of_inBounds hbounds (by omega) (by omega) hout
    exact ⟨hkept m a houtside, hkept m' a houtside⟩

theorem store_contained (o : Nat) (header : Header) :
    h.Contained (h.store o header) fun _ => True := by
  intro m m' ha
  unfold store
  by_cases hbounds : h.InBounds o
  · rw [if_pos hbounds, if_pos hbounds]
    apply Alike.ok trivial
    exact writtenAlike_header (f := (header.write · (h.base + o))) hbounds
      (fun _ _ _ heq => Header.read_write_congr heq _ _)
      (fun _ _ hout => Header.read_write_of_outside hout) ha
  · rw [if_neg hbounds, if_neg hbounds]
    exact .report (.refl ha)

theorem erase_contained (o : Nat) : h.Contained (h.erase o) fun _ => True := by
  intro m m' ha
  unfold erase
  by_cases hbounds : h.InBounds o
  · rw [if_pos hbounds, if_pos hbounds]
    apply Alike.ok trivial
    exact writtenAlike_header (f := (Header.erase · (h.base + o))) hbounds
      (fun _ _ _ heq => Header.read_erase_congr heq _)
      (fun _ _ hout => Header.read_erase_of_outside hout) ha
  · rw [if_neg hbounds, if_neg hbounds]
    exact .report (.refl ha)

theorem relinkPrevious_contained (block previous : Option Nat) :
    h.Contained (h.relinkPrevious block previous) fun _ => True := by
  cases block with
  | none => exact .pure trivial
  | some o =>
      apply (Contained.inspect (load_contained o)).bind
      intro header _
      exact store_contained o _

variable {o payload : Nat} {header : Header}

theorem takeOver_contained (harena : h.arenaSize < Word.limit / 2) {size : Nat}
    (hsize : size ≤ h.arenaSize) (next : Option Nat) :
    h.Contained (h.takeOver size next) fun _ => True := by
  cases next with
  | none => exact .pure trivial
  | some o =>
      apply (Contained.inspect (load_contained o)).bind
      rintro following ⟨-, hfits⟩
      have hroom := hfits.1
      split
      · apply (Contained.lift (add_safe (by omega))).bind
        rintro _ rfl
        apply (Contained.lift (add_safe (by omega))).bind
        rintro _ rfl
        apply (erase_contained o).bind
        intro _ _
        exact .pure trivial
      · exact .pure trivial

theorem splitOff_contained (harena : h.arenaSize < Word.limit / 2)
    (hfits : o + headerSize + header.size ≤ h.arenaSize)
    (hroom : payload + headerSize ≤ header.size) :
    h.Contained (h.splitOff o header payload) fun _ => True := by
  apply (Contained.lift (add_safe (by omega))).bind
  rintro _ rfl
  apply (Contained.lift (add_safe (by omega))).bind
  rintro _ rfl
  apply (Contained.lift (sub_safe (by omega))).bind
  rintro _ rfl
  apply (Contained.lift (sub_safe (by omega))).bind
  rintro _ rfl
  apply (takeOver_contained harena (by omega) header.next).bind
  rintro ⟨size, next⟩ _
  apply (relinkPrevious_contained next _).bind
  intro _ _
  apply (store_contained _ _).bind
  intro _ _
  exact .pure trivial

theorem shouldSplit_safe (hroom : payload ≤ header.size) (hpayload : payload % headerSize = 0)
    (hsize : header.size % headerSize = 0) :
    Safe (fun split => split = true → payload + headerSize ≤ header.size)
      (h.shouldSplit header payload) := by
  unfold shouldSplit
  apply (sub_safe hroom).bind
  rintro _ rfl
  refine .ok ?_
  intro hsplit
  -- sizes are multiples of the header size, so the rest holds a header
  exact header_fits hpayload hsize (of_decide_eq_true hsplit)

theorem settle_contained (harena : h.arenaSize < Word.limit / 2) (o : Nat) (header : Header)
    (hfits : o + headerSize + header.size ≤ h.arenaSize) (hroom : payload ≤ header.size)
    (hpayload : payload % headerSize = 0) (hsize : header.size % headerSize = 0) :
    h.Contained (h.settle o header payload) fun _ => True := by
  apply (Contained.lift (shouldSplit_safe hroom hpayload hsize)).bind
  intro split hsplit
  cases split with
  | false => exact store_contained o header
  | true =>
      apply (splitOff_contained harena hfits (hsplit rfl)).bind
      intro header' _
      exact store_contained o header'

theorem fuse_contained (harena : h.arenaSize < Word.limit / 2) (first second : Nat) :
    h.Contained (h.fuse first second) fun _ => True := by
  apply (Contained.inspect (load_contained first)).bind
  rintro head ⟨-, hhead⟩
  apply (Contained.inspect (load_contained second)).bind
  rintro tail ⟨-, htail⟩
  have hheadroom := hhead.1
  have htailroom := htail.1
  split
  · apply (Contained.lift (add_safe (by omega))).bind
    rintro _ rfl
    apply (Contained.lift (add_safe (by omega))).bind
    rintro _ rfl
    apply (relinkPrevious_contained tail.next (some first)).bind
    intro _ _
    apply (erase_contained second).bind
    intro _ _
    exact store_contained first _
  · exact .report _

theorem mergeBehind_alike (harena : h.arenaSize < Word.limit / 2) (o : Nat) {m m' : Memory}
    (ha : h.Agree m m') :
    h.Alike (fun _ => True) m m' (h.mergeBehind o m) (h.mergeBehind o m') := by
  rw [mergeBehind_eq]
  apply (Contained.inspect (load_contained o) m m' ha).bind
  rintro header n n' ⟨-, hfits⟩ hload ha
  obtain ⟨-, rfl⟩ := MemoryM.inspect_eq_ok.1 hload
  apply (Contained.lift (successor_safe harena hfits.1) m n' ha).bind
  rintro link k k' - hlink ha
  obtain ⟨-, rfl⟩ := MemoryM.lift_eq_ok.1 hlink
  cases link with
  | none => exact .ok trivial (.refl ha)
  | some next =>
      apply (Contained.inspect (load_contained next) m k' ha).bind
      rintro following l l' - hnext ha
      obtain ⟨-, rfl⟩ := MemoryM.inspect_eq_ok.1 hnext
      cases following.free with
      | false => exact .ok trivial (.refl ha)
      | true =>
          apply (fuse_contained harena o next m l' ha).bind
          intro _ k k' _ hfuse ha
          have hgrown := sizeAt_fuse hfuse
          exact mergeBehind_alike harena o ha
termination_by h.arenaSize - h.sizeAt m o
decreasing_by omega

theorem mergeAhead_alike (harena : h.arenaSize < Word.limit / 2) (o : Nat) {m m' : Memory}
    (ha : h.Agree m m') :
    h.Alike (fun _ => True) m m' (h.mergeAhead o m) (h.mergeAhead o m') := by
  rw [mergeAhead_eq]
  apply (Contained.inspect (load_contained o) m m' ha).bind
  rintro header n n' - hload ha
  obtain ⟨-, rfl⟩ := MemoryM.inspect_eq_ok.1 hload
  cases header.previous with
  | none => exact .ok trivial (.refl ha)
  | some previous =>
      apply (Contained.inspect (load_contained previous) m n' ha).bind
      rintro preceding l l' - hprevious ha
      obtain ⟨-, rfl⟩ := MemoryM.inspect_eq_ok.1 hprevious
      cases preceding.free with
      | false => exact .ok trivial (.refl ha)
      | true =>
          apply (fuse_contained harena previous o m l' ha).bind
          intro _ k k' _ hfuse ha
          have hdecreases := fuse_decreases hfuse
          exact mergeAhead_alike harena previous ha
termination_by (h.headerCount m, h.arenaSize - h.sizeAt m o)
decreasing_by exact hdecreases

theorem coalesce_contained (harena : h.arenaSize < Word.limit / 2) (o : Nat) :
    h.Contained (h.coalesce o) fun _ => True := by
  apply Contained.bind (x := h.mergeBehind o) fun _ _ ha => mergeBehind_alike harena o ha
  intro _ _ m m' ha
  exact mergeAhead_alike harena o ha

theorem modify_contained {f : Memory → Memory}
    (hf : ∀ m m', h.Agree m m' → h.WrittenAlike m m' (f m) (f m')) :
    h.Contained (modify f : HeapM Unit) fun _ => True :=
  fun m m' ha => .ok trivial (hf m m' ha)

theorem not_in_range {p count a : Nat} (hlow : h.base ≤ p)
    (hhigh : p + count ≤ h.base + h.arenaSize) (hout : h.Outside a) :
    ¬ (p ≤ a ∧ a < p + count) := by
  rcases hout with hout | hout
  · omega
  · omega

theorem fill_contained {p count : Nat} (hlow : h.base ≤ p)
    (hhigh : p + count ≤ h.base + h.arenaSize) (byte : UInt8) :
    h.Contained (modify (·.fill p count byte) : HeapM Unit) fun _ => True := by
  apply modify_contained
  intro m m' ha
  constructor
  · intro a hin
    rw [Memory.read_fill, Memory.read_fill, ha a hin]
  · intro a hout
    have houtside := not_in_range hlow hhigh hout
    rw [Memory.read_fill, Memory.read_fill, if_neg houtside, if_neg houtside]
    exact ⟨rfl, rfl⟩

theorem copy_contained {source target count : Nat} (hsource : h.base ≤ source)
    (hsource' : source + count ≤ h.base + h.arenaSize) (htarget : h.base ≤ target)
    (htarget' : target + count ≤ h.base + h.arenaSize) :
    h.Contained (modify (·.copy source target count) : HeapM Unit) fun _ => True := by
  apply modify_contained
  intro m m' ha
  constructor
  · intro a hin
    rw [Memory.read_copy, Memory.read_copy, ha a hin]
    split
    · apply ha
      intro hout
      exact not_in_range hsource hsource' hout (by omega)
    · rfl
  · intro a hout
    have houtside := not_in_range htarget htarget' hout
    rw [Memory.read_copy, Memory.read_copy, if_neg houtside, if_neg houtside]
    exact ⟨rfl, rfl⟩

/-! ## The operations -/

structure HasRoom (h : BlockHeap) (p size : Nat) : Prop where
  low : h.base + headerSize ≤ p
  inside : p < h.base + h.arenaSize
  high : p + size ≤ h.base + h.arenaSize

theorem hasRoom_of_fits {size : Nat} (hfits : o + headerSize + payload ≤ h.arenaSize)
    (hsize : size ≤ payload) (hpayload : headerSize ≤ payload) :
    h.HasRoom (h.payloadAddress o) size := by
  simp only [headerSize] at *
  constructor <;> simp only [payloadAddress, headerSize] <;> omega

theorem requireInitialized_contained : h.Contained h.requireInitialized fun _ => True := by
  unfold requireInitialized
  split
  · exact .pure trivial
  · exact .report _

theorem payloadSize_safe (size : Nat) :
    Safe (fun payload => payload % headerSize = 0 ∧ size ≤ payload ∧ headerSize ≤ payload)
      (payloadSize size) := by
  cases hs : payloadSize? size with
  | none =>
      rw [payloadSize_of_none hs]
      exact .report
  | some payload =>
      rw [payloadSize_of_some hs]
      exact .ok (payloadSize?_eq_some hs)

theorem allocate_contained (harena : h.arenaSize < Word.limit / 2) (size : Nat) :
    h.Contained (h.allocate size) (h.HasRoom · size) := by
  apply requireInitialized_contained.bind
  intro _ _
  apply (Contained.lift (payloadSize_safe size)).bind
  rintro payload ⟨haligned, hsize, hpayload⟩
  apply (Contained.inspect (findFree_contained harena payload)).bind
  intro found hfound
  cases found with
  | none => exact .report _
  | some v =>
      obtain ⟨o, header⟩ := v
      obtain ⟨-, hfits, hroom⟩ : h.InBounds o ∧ h.Fits o header ∧ payload ≤ header.size :=
        hfound _ rfl
      have hstop : o + headerSize + header.size ≤ h.arenaSize := hfits.1
      apply (settle_contained harena o { header with free := false } hfits.1 hroom haligned
        hfits.2).bind
      intro _ _
      exact .pure (hasRoom_of_fits (Nat.le_trans (by omega) hstop) hsize hpayload)

theorem allocateAligned_contained (harena : h.arenaSize < Word.limit / 2) (size align : Nat) :
    h.Contained (h.allocateAligned size align) (h.HasRoom · size) := by
  unfold allocateAligned
  split
  · exact allocate_contained harena size
  · exact .report _

theorem release_contained (harena : h.arenaSize < Word.limit / 2) (p : Nat) :
    h.Contained (h.release p) fun _ => True := by
  apply requireInitialized_contained.bind
  intro _ _
  apply (Contained.inspect (usedBlock_contained harena p)).bind
  rintro ⟨o, header⟩ _
  apply (store_contained o _).bind
  intro _ _
  exact coalesce_contained harena o

theorem allocateZeroed_contained (harena : h.arenaSize < Word.limit / 2) (count size : Nat) :
    h.Contained (h.allocateZeroed count size) (h.HasRoom · (count * size)) := by
  unfold allocateZeroed
  cases htotal : Word.mul? count size with
  | none => exact .report _
  | some total =>
      obtain ⟨rfl, -⟩ := Word.mul?_eq_some.1 htotal
      apply (allocate_contained harena (count * size)).bind
      intro p hroom
      apply (Contained.inspect (usedBlock_contained harena p)).bind
      rintro ⟨o, header⟩ ⟨haddress, -, hfits, -⟩
      have hstop : o + headerSize + header.size ≤ h.arenaSize := hfits.1
      simp only [payloadAddress] at haddress
      apply (fill_contained (by omega) (by omega) 0).bind
      intro _ _
      exact .pure hroom

theorem shrink_contained (harena : h.arenaSize < Word.limit / 2) (hfits : h.Fits o header)
    (hroom : payload ≤ header.size) (haligned : payload % headerSize = 0) :
    h.Contained (h.shrink o header payload) fun _ => True := by
  apply (Contained.lift (shouldSplit_safe hroom haligned hfits.2)).bind
  intro split hsplit
  cases split with
  | false => exact .pure trivial
  | true =>
      apply (splitOff_contained harena hfits.1 (hsplit rfl)).bind
      intro header' _
      exact store_contained o header'

theorem growInPlace_contained (harena : h.arenaSize < Word.limit / 2) (hfits : h.Fits o header)
    (hnext : ∀ next ∈ header.next, next = o + headerSize + header.size)
    (haligned : payload % headerSize = 0) :
    h.Contained (h.growInPlace o header payload) fun grown =>
      grown = true → o + headerSize + payload ≤ h.arenaSize := by
  unfold growInPlace
  cases hlink : header.next with
  | none => exact .pure (by simp)
  | some next =>
      -- the successor lies right behind the block, so that the two fit as one
      obtain rfl := hnext next hlink
      apply (Contained.inspect (load_contained _)).bind
      rintro following ⟨-, hfollowing⟩
      obtain ⟨hstop, hsize⟩ := hfits
      obtain ⟨hstop', hsize'⟩ := hfollowing
      apply (Contained.lift (add_safe (by omega))).bind
      rintro _ rfl
      apply (Contained.lift (add_safe (by omega))).bind
      rintro _ rfl
      split
      · rename_i hroom
        apply (relinkPrevious_contained following.next (some o)).bind
        intro _ _
        apply (erase_contained _).bind
        intro _ _
        have hcombined : (header.size + headerSize + following.size) % headerSize = 0 := by
          simp only [headerSize] at *
          omega
        apply (settle_contained harena o
          { header with size := header.size + headerSize + following.size, next := following.next }
          (by dsimp only; omega) hroom.2 haligned hcombined).bind
        intro _ _
        exact .pure fun _ => by omega
      · exact .pure (by simp)

theorem resize_contained (harena : h.arenaSize < Word.limit / 2) (p newSize : Nat) :
    h.Contained (h.resize p newSize) (h.HasRoom · newSize) := by
  apply requireInitialized_contained.bind
  intro _ _
  apply (Contained.inspect (usedBlock_contained harena p)).bind
  rintro ⟨o, header⟩ ⟨haddress, -, hfits, hnext⟩
  apply (Contained.lift (payloadSize_safe newSize)).bind
  rintro payload ⟨haligned, hsize, hpayload⟩
  obtain rfl : p = h.payloadAddress o := haddress
  have hstop : o + headerSize + header.size ≤ h.arenaSize := hfits.1
  split
  · rename_i hroom
    apply (shrink_contained harena hfits hroom haligned).bind
    intro _ _
    exact .pure (hasRoom_of_fits (Nat.le_trans (by omega) hstop) hsize hpayload)
  · apply (growInPlace_contained harena hfits hnext haligned).bind
    intro grown hgrown
    cases grown with
    | true => exact .pure (hasRoom_of_fits (hgrown rfl) hsize hpayload)
    | false =>
        apply (allocate_contained harena newSize).bind
        intro target hroom
        -- both payloads lie inside the arena, so the copy stays there
        have hlow := hroom.low
        have hhigh := hroom.high
        apply (copy_contained _ _ _ _).bind
        · intro _ _
          apply (release_contained harena _).bind
          intro _ _
          exact .pure hroom
        · simp only [payloadAddress]
          omega
        · simp only [payloadAddress]
          omega
        · omega
        · omega

theorem call_contained (harena : h.arenaSize < Word.limit / 2) (call : Call) :
    h.Contained (call.perform h) fun given => ∀ p ∈ given, h.HasRoom p 0 := by
  have hgiven : ∀ p size, h.HasRoom p size → ∀ q ∈ some p, h.HasRoom q 0 := by
    intro p size hroom q hq
    rw [← Option.some.inj hq]
    exact ⟨hroom.low, hroom.inside, Nat.le_of_lt hroom.inside⟩
  cases call with
  | allocate size =>
      apply (allocate_contained harena size).bind
      exact fun p hroom => .pure (hgiven p _ hroom)
  | allocateAligned size align =>
      apply (allocateAligned_contained harena size align).bind
      exact fun p hroom => .pure (hgiven p _ hroom)
  | allocateZeroed count size =>
      apply (allocateZeroed_contained harena count size).bind
      exact fun p hroom => .pure (hgiven p _ hroom)
  | resize p newSize =>
      apply (resize_contained harena p newSize).bind
      exact fun q hroom => .pure (hgiven q _ hroom)
  | release p =>
      apply (release_contained harena p).bind
      exact fun _ _ => .pure (by simp)

end EarlyBoot.BlockHeap
