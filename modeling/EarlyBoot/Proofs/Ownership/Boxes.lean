import EarlyBoot.Proofs.Ownership.Values

/-!
# What a box owns

A value may keep others in a block of its own.  Its deed is that of the block,
together with what the bytes in the block stand for.  While the value is held
the block can be opened: then block and contents are held side by side.

A box is such a value.  Making one takes a block and the deed of what goes into
it; if there is no block the value is dropped.
-/

namespace EarlyBoot

open BlockHeap (charge alignment)

variable {f : Firmware} {blocks : List BlockInfo}

/-- The block that a value may have for its contents: address and number of bytes. -/
def Deed.storage : Option (Nat × Nat) → Deed
  | none => 0
  | some (address, size) => Deed.block address size

@[simp] theorem Deed.budget_storage (place : Option (Nat × Nat)) : (storage place).budget = 0 := by
  cases place <;> rfl

def SameAt (place : Option (Nat × Nat)) (m m' : Memory) : Prop :=
  ∀ address size, place = some (address, size) →
    ∀ k, k < size → m'.read (address + k) = m.read (address + k)

theorem Trades.sameAt {f' : Firmware} {blocks' : List BlockInfo} {given gained : Multiset Nat}
    (h : Trades f blocks given f' blocks' gained) {place : Option (Nat × Nat)}
    (hplace : (Deed.storage place).Valid f blocks)
    (hapart : ∀ p ∈ (Deed.storage place).holdings f, p ∉ given) :
    SameAt place f.memory f'.memory := by
  rintro address size rfl k hk
  obtain ⟨b, hb, rfl, hsize⟩ := hplace
  exact (h.stays hb (hapart _ (Multiset.mem_singleton_self _))).2.2.2 k (by omega)

/-- A value of which `P` is known; what it contains can be read off the bytes of its place. -/
def Deed.around (place : Option (Nat × Nat)) (P : Prop) (contents : Memory → Deed)
    (local_contents : P → ∀ m m', SameAt place m m' → contents m' = contents m) : Deed where
  holdings f := (storage place).holdings f + (contents f.memory).holdings f
  Valid f blocks := ((storage place).Valid f blocks ∧ (contents f.memory).Valid f blocks) ∧ P
  budget := 0
  held := fun ⟨⟨hplace, hcontents⟩, _⟩ p hp =>
    (Multiset.mem_add.1 hp).elim ((storage place).held hplace p) ((contents _).held hcontents p)
  kept := by
    rintro f blocks given f' blocks' gained h ⟨⟨hplace, hcontents⟩, hP⟩ hapart
    have hplaceApart := fun p hp => hapart p (Multiset.mem_add.2 (.inl hp))
    obtain ⟨hp, hplace'⟩ := (storage place).kept h hplace hplaceApart
    obtain ⟨hc, hcontents'⟩ := (contents f.memory).kept h hcontents fun p hp =>
      hapart p (Multiset.mem_add.2 (.inr hp))
    rw [local_contents hP _ _ (h.sameAt hplace hplaceApart), hp, hc]
    exact ⟨rfl, ⟨hplace', hcontents'⟩, hP⟩

section Around

variable {place : Option (Nat × Nat)} {P : Prop} {contents : Memory → Deed}
  {local_contents : P → ∀ m m', SameAt place m m' → contents m' = contents m}

theorem amounts_opened (hbudget : (contents f.memory).budget = 0) :
    Amounts f blocks (Deed.around place P contents local_contents)
      (Deed.storage place + contents f.memory + Deed.fact P) :=
  fun hv => ⟨hv, by simp [Deed.around], by simp [Deed.around, hbudget]⟩

theorem amounts_closed (contents : Memory → Deed)
    {local_contents : P → ∀ m m', SameAt place m m' → contents m' = contents m}
    (hbudget : (contents f.memory).budget = 0) :
    Amounts f blocks (Deed.storage place + contents f.memory + Deed.fact P)
      (Deed.around place P contents local_contents) :=
  fun hv => ⟨hv, by simp [Deed.around], by simp [Deed.around, hbudget]⟩

end Around

namespace HeapBox

variable {α : Type} [Stored α]

theorem read_congr (box : HeapBox α) {m m' : Memory}
    (h : SameAt (some (box.address.toNat, Stored.size α)) m m') : box.read m' = box.read m :=
  congrArg Stored.decode (Memory.readBytes_shift fun k hk => h _ _ rfl k hk)

theorem read_write (box : HeapBox α) (m : Memory) (x : α) :
    box.read (m.writeBytes box.address.toNat (Stored.encode x)) = x := by
  unfold read
  rw [← Stored.length_encode x, Memory.readBytes_writeBytes, Stored.decode_encode]

def shell (box : HeapBox α) : Deed :=
  Deed.storage (some (box.address.toNat, Stored.size α))

@[simp] theorem budget_shell (box : HeapBox α) : box.shell.budget = 0 := rfl

/-- The block of a box with the bytes of a value in it; what the value owns is not included. -/
def keeps (box : HeapBox α) (x : α) : Deed :=
  box.shell.showing (fun f => box.read f.memory = x) fun h hvalid hapart hread =>
    (box.read_congr (h.sameAt hvalid hapart)).trans hread

@[simp] theorem budget_keeps (box : HeapBox α) (x : α) : (box.keeps x).budget = 0 := rfl

theorem keeps_amounts (box : HeapBox α) (x : α) :
    Amounts f blocks (box.keeps x) box.shell :=
  .of_showing fun _ => .refl _ _ _

theorem shell_amounts (box : HeapBox α) {x : α} (hread : box.read f.memory = x) :
    Amounts f blocks box.shell (box.keeps x) :=
  (Amounts.refl _ _ _).showing fun _ => hread

theorem shell_ofNat {p : Nat} (hp : p < Word.limit) :
    (⟨UInt64.ofNat p⟩ : HeapBox α).shell = Deed.block p (Stored.size α) := by
  unfold shell
  rw [UInt64.toNat_ofNat_of_lt' hp]
  rfl

theorem set_delivers (box : HeapBox α) (x : α) :
    Delivers (box.set x) f blocks box.shell fun _ _ => box.keeps x := by
  have hlength := Stored.length_encode x
  have hwrite : Delivers (box.set x) f blocks box.shell fun _ f' => box.shell +
      Deed.fact (f' = { f with
        memory := f.memory.writeBytes box.address.toNat (Stored.encode x) }) :=
    write_delivers (Nat.le_refl _) (by omega)
  refine hwrite.leaving fun _ f' blocks' => .of_fact fun hf => ?_
  refine box.shell_amounts ?_
  rw [hf]
  exact box.read_write f.memory x

theorem set_layout {box : HeapBox α} {x : α} {f' : Firmware} (hp : f.heap.Placed)
    (hw : f.heap.WellFormed f.memory blocks) (hblock : box.shell.Valid f blocks)
    (hrun : box.set x f = .ok () f') :
    f'.heap = f.heap ∧ f.heap.WellFormed f'.memory blocks := by
  have hlength := Stored.length_encode x
  cases hrun
  exact ⟨rfl, (write_spares hp hw hblock (Nat.le_refl _) (by omega)).shares.wellFormed⟩

section Deeds

variable [HasDeed α]

instance : HasDeed (HeapBox α) where
  deed box := Deed.around (some (box.address.toNat, Stored.size α)) True
    (fun m => deed (box.read m)) fun _ _ _ h => by rw [box.read_congr h]
  budget_deed _ := rfl

theorem deed_eq (box : HeapBox α) :
    deed box = Deed.around (some (box.address.toNat, Stored.size α)) True
      (fun m => deed (box.read m)) fun _ _ _ h => by rw [box.read_congr h] := rfl

theorem amounts_opened (box : HeapBox α) (f : Firmware) (blocks : List BlockInfo) :
    Amounts f blocks (deed box)
      (box.keeps (box.read f.memory) + deed (box.read f.memory)) := by
  have hopened : Amounts f blocks (deed box)
      (box.shell + deed (box.read f.memory) + Deed.fact True) := by
    rw [box.deed_eq]
    exact EarlyBoot.amounts_opened (by simp)
  rw [Deed.fact_true, add_zero] at hopened
  exact hopened.trans ((box.shell_amounts rfl).add (.refl _ _ _))

theorem amounts_closed (box : HeapBox α) (x : α) (f : Firmware) (blocks : List BlockInfo) :
    Amounts f blocks (box.keeps x + deed x) (deed box) := by
  rintro ⟨⟨hshell, rfl⟩, hcontents⟩
  have hclosed : Amounts f blocks (box.shell + deed (box.read f.memory) + Deed.fact True)
      (deed box) := by
    rw [box.deed_eq]
    exact EarlyBoot.amounts_closed (fun m => deed (box.read m)) (by simp)
  rw [Deed.fact_true, add_zero] at hclosed
  exact hclosed ⟨hshell, hcontents⟩

end Deeds

variable [Owned α]

def boxed (x : α) (d : Deed) (n : Int) : Except HeapError (HeapBox α) → Deed
  | .ok box => box.keeps x + d + Deed.fund (n - charge (Stored.size α))
  | .error error => Deed.fund n + Deed.fact (error.isFatal = false ∧
      (Stored.align α ≤ alignment → error.IsExhaustion ∧ n < charge (Stored.size α)))

theorem new_delivers {x : α} {d : Deed} (n : Int) (hbudget : d.budget = 0)
    (hdrop : ∀ f blocks, Delivers (Owned.drop x) f blocks d fun _ _ => 0) :
    Delivers (HeapBox.new x) f blocks (d + Deed.fund n) fun reply _ => boxed x d n reply := by
  unfold HeapBox.new
  rw [add_comm]
  refine (Heap.allocate_delivers _ _ n).bind_frame (by simp [hbudget]) ?_
  rintro (error | p) f' blocks' -
  · rw [add_comm]
    refine (hdrop f' blocks').bind_frame (by simp [hbudget]) ?_
    rintro _ f'' blocks'' -
    rw [zero_add]
    exact .pure (.refl _ _ _)
  · have hparts : granted (Stored.size α) n (.ok p) + d =
        Deed.block p (Stored.size α) + (d + Deed.fund (n - charge (Stored.size α))) +
          Deed.fact (p < Word.limit) := by
      rw [granted_ok]
      abel
    dsimp only
    rw [hparts]
    refine .of_fact fun hp => ?_
    rw [← shell_ofNat hp]
    refine (set_delivers _ x).bind_frame (by simp [hbudget]) ?_
    rintro _ f'' blocks'' -
    rw [← add_assoc]
    exact .pure (.refl _ _ _)

theorem drop_delivers {box : HeapBox α} {x : α} {d : Deed}
    (hdrop : ∀ f blocks, Delivers (Owned.drop x) f blocks d fun _ _ => 0) (f : Firmware)
    (blocks : List BlockInfo) :
    Delivers (Owned.drop box) f blocks (box.keeps x + d) fun _ _ => 0 := by
  refine .of_holds fun hs => ?_
  obtain ⟨⟨-, hread⟩, -⟩ := hs.valid
  have hget : box.get f = .ok x f := hread ▸ rfl
  refine .bind_ok hget ?_ rfl
  rw [add_comm]
  refine (hdrop f blocks).bind_frame (.inr (by simp)) ?_
  rintro _ f' blocks' -
  rw [zero_add]
  exact (Heap.free_delivers _ _).amounts (box.keeps_amounts _)

instance [HasDeed α] [Disposable α] : Disposable (HeapBox α) where
  drop_delivers box f blocks :=
    (drop_delivers (EarlyBoot.drop_delivers _) f blocks).amounts
      (box.amounts_opened f blocks)

end HeapBox

end EarlyBoot
