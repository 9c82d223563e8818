import EarlyBoot.BlockHeap.Edit

/-!
# Merging free neighbours

A released block is merged with free blocks behind it and then with free blocks
in front of it.  Both loops end for every content of the arena: a fusion makes
its first block larger, and unless a block is fused with itself it leaves one
header less in the arena.
-/

namespace EarlyBoot.BlockHeap

open MemoryM (inspect bind_of_ok bind_of_error inspect_of_ok inspect_of_error lift_of_ok)

def tagged (h : BlockHeap) (m : Memory) (offset : Nat) : Bool :=
  m.readWord (h.base + offset) = freeTag ∨ m.readWord (h.base + offset) = usedTag

/-- How many places of the arena that can hold a header do hold a valid tag. -/
def headerCount (h : BlockHeap) (m : Memory) : Nat :=
  (List.range (h.arenaSize / headerSize)).countP fun place => h.tagged m (headerSize * place)

def sizeAt (h : BlockHeap) (m : Memory) (offset : Nat) : Nat := m.readWord (h.base + offset + 8)

theorem tagged_of_load {h : BlockHeap} {m : Memory} {offset : Nat} {header : Header}
    (hl : h.load m offset = .ok header) : h.tagged m offset = true := by
  exact decide_eq_true (Header.read?_eq_some.1 (load_eq_ok.1 hl).2.1).1

theorem sizeAt_of_load {h : BlockHeap} {m : Memory} {offset : Nat} {header : Header}
    (hl : h.load m offset = .ok header) : h.sizeAt m offset = header.size := by
  rw [(Header.read?_eq_some.1 (load_eq_ok.1 hl).2.1).2]
  rfl

theorem apart_of_aligned {a b : Nat} (ha : a % headerSize = 0) (hb : b % headerSize = 0)
    (hne : a ≠ b) : a + headerSize ≤ b ∨ b + headerSize ≤ a := by
  unfold headerSize at *
  omega

theorem tagged_write (h : BlockHeap) (m : Memory) {offset place : Nat} (header : Header)
    (ho : offset % headerSize = 0) (hp : place % headerSize = 0) :
    h.tagged (header.write m (h.base + offset)) place =
      (decide (place = offset) || h.tagged m place) := by
  unfold tagged
  by_cases heq : place = offset
  · subst heq
    rw [Header.tag_write]
    simp [header.tag_valid]
  · have := apart_of_aligned hp ho heq
    unfold headerSize at this
    rw [Header.readWord_write_of_outside (by unfold headerSize; omega)]
    simp [heq]

theorem tagged_erase (h : BlockHeap) (m : Memory) {offset place : Nat}
    (ho : offset % headerSize = 0) (hp : place % headerSize = 0) :
    h.tagged (Header.erase m (h.base + offset)) place =
      (!decide (place = offset) && h.tagged m place) := by
  unfold tagged
  by_cases heq : place = offset
  · subst heq
    rw [Header.tag_erase]
    simp [freeTag, usedTag]
  · have := apart_of_aligned hp ho heq
    unfold headerSize at this
    rw [Header.readWord_erase_of_outside (by unfold headerSize; omega)]
    simp [heq]

theorem tagged_relinkPrevious {h : BlockHeap} {m m' : Memory} {block previous : Option Nat}
    (hr : h.relinkPrevious block previous m = .ok () m') {place : Nat}
    (hp : place % headerSize = 0) : h.tagged m' place = h.tagged m place := by
  unfold relinkPrevious at hr
  cases block with
  | none =>
      obtain ⟨-, rfl⟩ := MemoryM.pure_eq_ok.1 hr
      rfl
  | some offset =>
      obtain ⟨header, _, hinspect, hstore⟩ := MemoryM.bind_eq_ok.1 hr
      obtain ⟨hload, rfl⟩ := MemoryM.inspect_eq_ok.1 hinspect
      obtain ⟨hbounds, rfl⟩ := store_eq_ok.1 hstore
      rw [tagged_write h m _ hbounds.2 hp]
      by_cases heq : place = offset
      · subst heq
        simp [tagged_of_load hload]
      · simp [heq]

theorem tagged_fuse {h : BlockHeap} {first second : Nat} {m m' : Memory}
    (hf : h.fuse first second m = .ok () m') {place : Nat} (hp : place % headerSize = 0) :
    h.tagged m' place =
      (decide (place = first) || (!decide (place = second) && h.tagged m place)) := by
  obtain ⟨head, tail, m₁, hhead, htail, -, -, -, hrelink, rfl⟩ := fuse_eq_ok.1 hf
  rw [tagged_write h _ _ (load_eq_ok.1 hhead).1.2 hp,
    tagged_erase h _ (load_eq_ok.1 htail).1.2 hp, tagged_relinkPrevious hrelink hp]

theorem sizeAt_fuse {h : BlockHeap} {first second : Nat} {m m' : Memory}
    (hf : h.fuse first second m = .ok () m') :
    h.sizeAt m first < h.sizeAt m' first ∧ h.sizeAt m first < h.arenaSize := by
  obtain ⟨head, tail, m₁, hhead, htail, -, -, hlt, hrelink, rfl⟩ := fuse_eq_ok.1 hf
  have hfits := (load_eq_ok.1 hhead).2.2.1
  rw [sizeAt_of_load hhead]
  unfold sizeAt
  unfold Word.limit at hlt
  rw [Header.size_write hlt]
  unfold headerSize at *
  simp only
  omega

theorem countP_lt_countP {α : Type} {p q : α → Bool} {l : List α} {a : α}
    (himp : ∀ x ∈ l, p x = true → q x = true) (ha : a ∈ l) (hq : q a = true)
    (hp : p a = false) : l.countP p < l.countP q := by
  induction l with
  | nil => simp at ha
  | cons b l ih =>
      rw [List.countP_cons, List.countP_cons]
      have hb := himp b (by simp)
      have hl : ∀ x ∈ l, p x = true → q x = true := fun x hx => himp x (by simp [hx])
      rcases List.mem_cons.1 ha with rfl | ha
      · have := List.countP_mono_left hl
        simp only [hp, hq, if_true, Bool.false_eq_true, if_false]
        omega
      · have := ih hl ha
        by_cases hpb : p b = true
        · simp only [hpb, hb hpb, if_true]
          omega
        · simp only [hpb, Bool.false_eq_true, if_false]
          omega

theorem tagged_of_tagged_fuse {h : BlockHeap} {first second : Nat} {m m' : Memory}
    (hf : h.fuse first second m = .ok () m') {place : Nat}
    (hp : h.tagged m' (headerSize * place) = true) : h.tagged m (headerSize * place) = true := by
  obtain ⟨head, -, -, hhead, -⟩ := fuse_eq_ok.1 hf
  rw [tagged_fuse hf (Nat.mul_mod_right _ _)] at hp
  by_cases heq : headerSize * place = first
  · rw [heq]
    exact tagged_of_load hhead
  · simp only [heq, decide_false, Bool.false_or, Bool.and_eq_true] at hp
    exact hp.2

theorem headerCount_fuse_le {h : BlockHeap} {first second : Nat} {m m' : Memory}
    (hf : h.fuse first second m = .ok () m') : h.headerCount m' ≤ h.headerCount m :=
  List.countP_mono_left fun _ _ hp => tagged_of_tagged_fuse hf hp

theorem headerCount_fuse_lt {h : BlockHeap} {first second : Nat} {m m' : Memory}
    (hf : h.fuse first second m = .ok () m') (hne : first ≠ second) :
    h.headerCount m' < h.headerCount m := by
  obtain ⟨-, tail, -, -, htail, -⟩ := fuse_eq_ok.1 hf
  have hbounds := (load_eq_ok.1 htail).1
  have hplace : headerSize * (second / headerSize) = second := by
    have := hbounds.2
    unfold headerSize at *
    omega
  apply countP_lt_countP (a := second / headerSize)
  · exact fun _ _ hp => tagged_of_tagged_fuse hf hp
  · rw [List.mem_range]
    have := hbounds.1
    have := hbounds.2
    unfold headerSize at *
    omega
  · rw [hplace]
    exact tagged_of_load htail
  · rw [hplace, tagged_fuse hf hbounds.2]
    simp [Ne.symm hne]

theorem fuse_decreases {h : BlockHeap} {first second : Nat} {m m' : Memory}
    (hf : h.fuse first second m = .ok () m') :
    Prod.Lex (· < ·) (· < ·) (h.headerCount m', h.arenaSize - h.sizeAt m' first)
      (h.headerCount m, h.arenaSize - h.sizeAt m second) := by
  by_cases hsame : first = second
  · subst hsame
    have hsize := sizeAt_fuse hf
    rcases Nat.lt_or_eq_of_le (headerCount_fuse_le hf) with hlt | heq
    · exact Prod.Lex.left _ _ hlt
    · rw [heq]
      exact Prod.Lex.right _ (by omega)
  · exact Prod.Lex.left _ _ (headerCount_fuse_lt hf hsame)

/-! ## The merging loops -/

/-- Merges free blocks behind the one at `offset` into it. -/
def mergeBehind (h : BlockHeap) (offset : Nat) (m : Memory) : EStateM.Result HeapStop Memory Unit :=
  match h.load m offset with
  | .error stop => .error stop m
  | .ok header =>
      match h.successor offset header with
      | .error stop => .error stop m
      | .ok none => .ok () m
      | .ok (some next) =>
          match h.load m next with
          | .error stop => .error stop m
          | .ok following =>
              if following.free then
                match hf : h.fuse offset next m with
                | .error stop m' => .error stop m'
                | .ok () m' =>
                    have := sizeAt_fuse hf
                    h.mergeBehind offset m'
              else .ok () m
termination_by h.arenaSize - h.sizeAt m offset

/-- Merges the free block at `offset` into free blocks in front of it. -/
def mergeAhead (h : BlockHeap) (offset : Nat) (m : Memory) : EStateM.Result HeapStop Memory Unit :=
  match h.load m offset with
  | .error stop => .error stop m
  | .ok header =>
      match header.previous with
      | none => .ok () m
      | some previous =>
          match h.load m previous with
          | .error stop => .error stop m
          | .ok preceding =>
              if preceding.free then
                match hf : h.fuse previous offset m with
                | .error stop m' => .error stop m'
                | .ok () m' =>
                    have := fuse_decreases hf
                    h.mergeAhead previous m'
              else .ok () m
termination_by (h.headerCount m, h.arenaSize - h.sizeAt m offset)
decreasing_by exact this

def coalesce (h : BlockHeap) (offset : Nat) : HeapM Unit := do
  h.mergeBehind offset
  h.mergeAhead offset

theorem mergeBehind_eq (h : BlockHeap) (offset : Nat) :
    h.mergeBehind offset = (do
      let header ← inspect (h.load · offset)
      match ← h.successor offset header with
      | none => pure ()
      | some next =>
          let following ← inspect (h.load · next)
          if following.free then
            h.fuse offset next
            h.mergeBehind offset
          else pure () : HeapM Unit) := by
  funext m
  rw [mergeBehind]
  cases hload : h.load m offset with
  | error stop => exact (bind_of_error (inspect_of_error hload)).symm
  | ok header =>
      rw [bind_of_ok (inspect_of_ok hload)]
      dsimp only
      cases hs : h.successor offset header with
      | error stop => rfl
      | ok link =>
          cases link with
          | none => rfl
          | some next =>
              rw [bind_of_ok (lift_of_ok rfl m)]
              dsimp only
              cases hnext : h.load m next with
              | error stop => exact (bind_of_error (inspect_of_error hnext)).symm
              | ok following =>
                  rw [bind_of_ok (inspect_of_ok hnext)]
                  dsimp only
                  split
                  · cases hf : h.fuse offset next m with
                    | error stop m' => exact (bind_of_error hf).symm
                    | ok _ m' => exact (bind_of_ok (f := fun _ => h.mergeBehind offset) hf).symm
                  · rfl

theorem mergeAhead_eq (h : BlockHeap) (offset : Nat) :
    h.mergeAhead offset = (do
      let header ← inspect (h.load · offset)
      match header.previous with
      | none => pure ()
      | some previous =>
          let preceding ← inspect (h.load · previous)
          if preceding.free then
            h.fuse previous offset
            h.mergeAhead previous
          else pure () : HeapM Unit) := by
  funext m
  rw [mergeAhead]
  cases hload : h.load m offset with
  | error stop => exact (bind_of_error (inspect_of_error hload)).symm
  | ok header =>
      rw [bind_of_ok (inspect_of_ok hload)]
      dsimp only
      cases header.previous with
      | none => rfl
      | some previous =>
          dsimp only
          cases hprevious : h.load m previous with
          | error stop => exact (bind_of_error (inspect_of_error hprevious)).symm
          | ok preceding =>
              rw [bind_of_ok (inspect_of_ok hprevious)]
              dsimp only
              split
              · cases hf : h.fuse previous offset m with
                | error stop m' => exact (bind_of_error hf).symm
                | ok _ m' => exact (bind_of_ok (f := fun _ => h.mergeAhead previous) hf).symm
              · rfl

end EarlyBoot.BlockHeap
