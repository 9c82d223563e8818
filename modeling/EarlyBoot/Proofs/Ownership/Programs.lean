import EarlyBoot.Proofs.BlockHeap.Accounting
import EarlyBoot.Proofs.HeapVec.Refinement
import EarlyBoot.Proofs.Ownership.Shapes
import Mathlib.Algebra.Order.Group.Multiset

/-!
# Programs over owned values

A program works on the values in its scope.  It makes plain data, vectors and
devices, moves values into boxes and vectors and out of vectors again, clears
vectors, attaches payloads to devices, and drops values, in any order; vectors
and devices may be changed in place, inside boxes and vectors.  A request for
memory may be refused, and a value for which there is no room is dropped; since
data of any size can be boxed, a program may leave as little room as it likes
for any of its requests.

A program neither leaks nor releases twice: whenever it has come to an end, the
blocks in use are those from before it began together with those its values
own, each owned once.
-/

namespace EarlyBoot

open BlockHeap (inUse)

variable {f f' : Firmware} {blocks blocks' : List BlockInfo} {given gained : Multiset Nat}

def usedAddresses (h : BlockHeap) (blocks : List BlockInfo) : Multiset Nat :=
  ((inUse blocks).map (h.payloadAddress ·.offset) : List Nat)

def Firmware.usedAddresses (f : Firmware) : Multiset Nat :=
  EarlyBoot.usedAddresses f.heap (f.heap.blocks f.memory)

theorem mem_usedAddresses {p : Nat} : p ∈ usedAddresses f.heap blocks ↔ InUseAt f blocks p := by
  simp [usedAddresses, InUseAt]

theorem usedAddresses_eq (hp : f.heap.Placed) (hw : f.heap.WellFormed f.memory blocks) :
    f.usedAddresses = usedAddresses f.heap blocks := by
  rw [Firmware.usedAddresses, hw.blocks_eq hp]

theorem nodup_usedAddresses {h : BlockHeap} {m : Memory} (hw : h.WellFormed m blocks) :
    (usedAddresses h blocks).Nodup :=
  hw.tiles.nodup_addresses h

theorem Trades.rest_eq (h : Trades f blocks given f' blocks' gained)
    (hw : f.heap.WellFormed f.memory blocks) :
    (usedAddresses f'.heap blocks').filter (· ∉ gained) =
      (usedAddresses f.heap blocks).filter (· ∉ given) := by
  have hafter := nodup_usedAddresses h.spares.shares.wellFormed
  refine (Multiset.Nodup.ext (hafter.filter _) ((nodup_usedAddresses hw).filter _)).2 fun p => ?_
  rw [Multiset.mem_filter, Multiset.mem_filter, mem_usedAddresses, mem_usedAddresses]
  constructor
  · rintro ⟨⟨b, hb, rfl⟩, hgained⟩
    rw [h.heap_eq] at hgained ⊢
    obtain ⟨hb', hgiven⟩ := h.spares.only b hb (by simpa using hgained)
    exact ⟨⟨b, hb', rfl⟩, by simpa using hgiven⟩
  · rintro ⟨hin, hgiven⟩
    exact h.inUseAt hin hgiven

theorem filter_mem_eq {used held : Multiset Nat} (hused : used.Nodup) (hheld : held.Nodup)
    (hsub : ∀ p ∈ held, p ∈ used) : used.filter (· ∈ held) = held := by
  refine (Multiset.Nodup.ext (hused.filter _) hheld).2 fun p => ?_
  rw [Multiset.mem_filter]
  exact ⟨And.right, fun hp => ⟨hsub p hp, hp⟩⟩

variable {d d' : Deed}

theorem Exchanges.balance (h : Exchanges f blocks d f' blocks' d') (hs : Holds f blocks d) :
    usedAddresses f'.heap blocks' + d.holdings f =
      usedAddresses f.heap blocks + d'.holdings f' := by
  have hs' := h.holds hs
  have hbefore : (usedAddresses f.heap blocks).filter (· ∈ d.holdings f) = d.holdings f :=
    filter_mem_eq (nodup_usedAddresses hs.wellFormed) hs.nodup
      fun p hp => mem_usedAddresses.2 (d.held hs.valid p hp)
  have hafter : (usedAddresses f'.heap blocks').filter (· ∈ d'.holdings f') = d'.holdings f' :=
    filter_mem_eq (nodup_usedAddresses hs'.wellFormed) hs'.nodup
      fun p hp => mem_usedAddresses.2 (d'.held hs'.valid p hp)
  have hsplit := Multiset.filter_add_not (· ∈ d.holdings f) (usedAddresses f.heap blocks)
  have hsplit' := Multiset.filter_add_not (· ∈ d'.holdings f') (usedAddresses f'.heap blocks')
  rw [← hsplit, ← hsplit', hbefore, hafter, h.trades.rest_eq hs.wellFormed]
  abel

/-! ## Changes in place -/

/-- What is done to a value: its new state, and the values that come out of it. -/
abbrev Change := (s : Shape) → s.Value → FirmwareM (s.Value × List AnyValue)

namespace Change

def push (y : AnyValue) : Change
  | .vector element, w =>
      if h : y.shape = element then do
        let w ← VecWords.push w (h ▸ y.value)
        pure (w, [])
      else pure (w, [y])
  | .data .., x => pure (x, [y])
  | .box _, x => pure (x, [y])
  | .device, x => pure (x, [y])

def pop : Change
  | .vector element, w => do
      let (w, x) ← VecWords.pop w
      pure (w, x.toList.map (AnyValue.mk element))
  | .data .., x => pure (x, [])
  | .box _, x => pure (x, [])
  | .device, x => pure (x, [])

def clear : Change
  | .vector _, w => do
      let w ← VecWords.clear w
      pure (w, [])
  | .data .., x => pure (x, [])
  | .box _, x => pure (x, [])
  | .device, x => pure (x, [])

def attach (payload : Payload) : Change
  | .device, (record : DeviceRecord) => do
      match ← Device.attach { record with name := "" } payload with
      | .ok device => pure (device.toDeviceRecord, [])
      | .error _ => pure (record, [])
  | .data .., x => pure (x, [])
  | .box _, x => pure (x, [])
  | .vector _, x => pure (x, [])

end Change

/-- One turn on the way from a value to a value inside it. -/
inductive Turn where
  | content
  | element (index : Nat)
  deriving DecidableEq, Repr

def changeAt (change : Change) (idle : List AnyValue) : List Turn → Change
  | [], s, x => change s x
  | .content :: path, .box content, box => do
      let (x, out) ← changeAt change idle path content (← HeapBox.get box)
      HeapBox.set box x
      pure (box, out)
  | .element index :: path, .vector element, w =>
      let v := VecWords.toVec w
      if index < v.length then do
        let x ← FirmwareM.look (v.readElement index)
        let (x, out) ← changeAt change idle path element x
        v.writeElement index x
        pure (w, out)
      else pure (w, idle)
  | _ :: _, _, x => pure (x, idle)

/-- The change takes up `given`, and all it obtains or is given is in what it leaves. -/
def Conserves (given : Deed) (change : Change) : Prop :=
  ∀ (s : Shape) (x : s.Value) (f : Firmware) (blocks : List BlockInfo),
    Delivers (change s x) f blocks (deed x + given) fun outcome _ =>
      deed outcome.1 + deed outcome.2 + Deed.unfunded

theorem idle_delivers {s : Shape} (x : s.Value) (idle : List AnyValue) :
    Delivers (pure (x, idle) : FirmwareM _) f blocks (deed x + deed idle) fun outcome _ =>
      deed outcome.1 + deed outcome.2 + Deed.unfunded :=
  .pure (Amounts.refl _ _ _).and_unfunded

theorem alone_delivers {s : Shape} (x : s.Value) :
    Delivers (pure (x, []) : FirmwareM (s.Value × List AnyValue)) f blocks
      (deed x + Deed.unfunded) fun outcome _ =>
        deed outcome.1 + deed outcome.2 + Deed.unfunded := by
  refine .pure ?_
  change Amounts f blocks _ (deed x + 0 + Deed.unfunded)
  rw [add_zero]
  exact .refl _ _ _

namespace Change

theorem push_conserves (y : AnyValue) : Conserves (deed [y]) (push y) := by
  intro s x f blocks
  cases s with
  | data => exact idle_delivers x [y]
  | box => exact idle_delivers x [y]
  | device => exact idle_delivers x [y]
  | vector element =>
      let w : VecWords element.Value := x
      change Delivers (if h : y.shape = element then _ else _) f blocks (deed w + deed [y]) _
      split
      next h =>
        obtain ⟨shape, y⟩ := y
        obtain rfl : shape = element := h
        rw [deed_cons, deed_nil, add_zero]
        refine (w.push_delivers y f blocks).bind ?_
        rintro w' f' blocks' -
        exact alone_delivers (s := .vector shape) w'
      next => exact idle_delivers x [y]

theorem pop_conserves : Conserves 0 pop := by
  intro s x f blocks
  cases s with
  | data => exact idle_delivers x []
  | box => exact idle_delivers x []
  | device => exact idle_delivers x []
  | vector element =>
      let w : VecWords element.Value := x
      change Delivers _ f blocks (deed w + 0) _
      rw [add_zero]
      refine (w.pop_delivers f blocks).bind ?_
      rintro ⟨w', x⟩ f' blocks' -
      have hout : deed (x.toList.map (AnyValue.mk element)) = deed x := by
        cases x with
        | none => rfl
        | some x => rfl
      refine .pure (Amounts.and_unfunded ?_)
      change Amounts f' blocks' _ (deed w' + deed (x.toList.map (AnyValue.mk element)))
      rw [hout]
      exact .refl _ _ _

theorem clear_conserves : Conserves 0 clear := by
  intro s x f blocks
  cases s with
  | data => exact idle_delivers x []
  | box => exact idle_delivers x []
  | device => exact idle_delivers x []
  | vector element =>
      let w : VecWords element.Value := x
      change Delivers _ f blocks (deed w + 0) _
      rw [add_zero]
      refine (w.clear_delivers f blocks).bind ?_
      rintro w' f' blocks' -
      exact (alone_delivers (s := .vector element) w').amounts (Amounts.refl _ _ _).and_unfunded

theorem attach_conserves (payload : Payload) : Conserves 0 (attach payload) := by
  intro s x f blocks
  cases s with
  | data => exact idle_delivers x []
  | box => exact idle_delivers x []
  | vector => exact idle_delivers x []
  | device =>
      let record : DeviceRecord := x
      let device : Device := { record with name := "" }
      let old := device.payload? f.memory
      have hattach : Delivers (device.attach payload) f blocks
          (device.carries old + Deed.fund 0) _ :=
        device.attach_delivers old payload 0
      refine .amounts ?_ ((device.amounts_carries f blocks).add (.refl _ _ 0))
      refine hattach.bind ?_
      rintro (error | device') f' blocks' -
      · refine .of_fact fun _ => (alone_delivers (s := .device) record).amounts ?_
        rw [Deed.fund_zero, add_zero]
        exact (device.carries_amounts old f' blocks').and_unfunded
      · refine .of_fact fun _ => (alone_delivers (s := .device) device'.toDeviceRecord).amounts ?_
        exact (device'.carries_amounts _ f' blocks').add fun _ => ⟨trivial, rfl, bot_le⟩

end Change

theorem content_delivers {content : Shape} {change : Change} {given : Deed}
    (hchange : Conserves given change) (box : HeapBox content.Value) :
    Delivers (do
      let (x, out) ← change content (← box.get)
      box.set x
      pure (box, out) : FirmwareM (HeapBox content.Value × List AnyValue))
      f blocks (deed box + given) fun outcome _ =>
        deed outcome.1 + deed outcome.2 + Deed.unfunded := by
  have hget : box.get f = .ok (box.read f.memory) f := rfl
  refine .amounts ?_ ((box.amounts_opened f blocks).add (.refl _ _ given))
  refine .bind_ok hget ?_ rfl
  generalize box.read f.memory = x
  rw [add_assoc, add_comm]
  refine (hchange content x f blocks).bind_frame (by simp) ?_
  rintro ⟨x', out⟩ f₁ blocks₁ -
  rw [add_comm]
  refine .amounts ?_ ((box.keeps_amounts x).add (.refl _ _ _))
  refine (box.set_delivers x').bind_frame (by simp) ?_
  rintro _ f₂ blocks₂ -
  refine .pure ?_
  rw [add_assoc (deed x'), ← add_assoc (box.keeps x'), ← add_assoc]
  exact ((box.amounts_closed x' f₂ blocks₂).add (.refl _ _ _)).add (.refl _ _ _)

theorem deed_split {α : Type} [HasDeed α] {xs : List α} {i : Nat} (h : i < xs.length) :
    deed xs = deed xs[i] + (deed (xs.take i) + deed (xs.drop (i + 1))) := by
  have hparts : xs = xs.take i ++ xs[i] :: xs.drop (i + 1) := by
    rw [List.getElem_cons_drop, List.take_append_drop]
  conv_lhs => rw [hparts, deed_append, deed_cons]
  abel

theorem deed_set {α : Type} [HasDeed α] {xs : List α} {i : Nat} (h : i < xs.length) (x : α) :
    deed (xs.set i x) = deed x + (deed (xs.take i) + deed (xs.drop (i + 1))) := by
  rw [List.set_eq_take_append_cons_drop, if_pos h, deed_append, deed_cons]
  abel

theorem element_delivers {element : Shape} {change : Change} {given : Deed}
    (hchange : Conserves given change) (w : VecWords element.Value) {index : Nat}
    (hindex : index < w.toVec.length) :
    Delivers (do
      let x ← FirmwareM.look (w.toVec.readElement index)
      let (x, out) ← change element x
      w.toVec.writeElement index x
      pure (w, out) : FirmwareM (VecWords element.Value × List AnyValue))
      f blocks (deed w + given) fun outcome _ =>
        deed outcome.1 + deed outcome.2 + Deed.unfunded := by
  let xs := w.toVec.toList f.memory
  have hlength : index < xs.length := by rwa [HeapVec.length_toList]
  have hlook : FirmwareM.look (w.toVec.readElement index) f = .ok xs[index] f := by
    rw [HeapVec.getElem_toList]
    rfl
  refine .amounts ?_ ((w.toVec.amounts_opened f blocks).add (.refl _ _ given))
  refine .bind_ok hlook ?_ rfl
  -- all but one element wait with the vector
  have hparts : w.toVec.keeps xs + deed xs + given = deed xs[index] + given +
      (w.toVec.keeps xs + (deed (xs.take index) + deed (xs.drop (index + 1)))) := by
    rw [deed_split hlength]
    abel
  rw [hparts]
  refine (hchange element _ f blocks).bind_frame (by simp) ?_
  rintro ⟨x', out⟩ f₁ blocks₁ -
  rw [add_comm, add_assoc]
  refine (HeapVec.replace_delivers hlength x').bind_frame (by simp) ?_
  rintro _ f₂ blocks₂ -
  refine .pure ?_
  have hparts' : w.toVec.keeps (xs.set index x') +
        (deed (xs.take index) + deed (xs.drop (index + 1)) +
          (deed x' + deed out + Deed.unfunded)) =
      w.toVec.keeps (xs.set index x') + deed (xs.set index x') + deed out + Deed.unfunded := by
    rw [deed_set hlength]
    abel
  rw [hparts']
  exact ((w.toVec.amounts_closed _ f₂ blocks₂).add (.refl _ _ _)).add (.refl _ _ _)

theorem changeAt_conserves {change : Change} {idle : List AnyValue}
    (hchange : Conserves (deed idle) change) (path : List Turn) :
    Conserves (deed idle) (changeAt change idle path) := by
  induction path with
  | nil =>
      intro s x f blocks
      cases s <;> exact hchange _ x f blocks
  | cons turn path ih =>
      intro s x f blocks
      cases turn with
      | content =>
          cases s with
          | data => exact idle_delivers x idle
          | vector => exact idle_delivers x idle
          | device => exact idle_delivers x idle
          | box content => exact content_delivers ih _
      | element index =>
          cases s with
          | data => exact idle_delivers x idle
          | box => exact idle_delivers x idle
          | device => exact idle_delivers x idle
          | vector element =>
              let w : VecWords element.Value := x
              change Delivers (if index < w.toVec.length then _ else _) f blocks _ _
              split
              next hindex => exact element_delivers ih w hindex
              next => exact idle_delivers x idle

/-! ## Programs -/

/-- Values are named by their places in the scope; the place changed last is the first. -/
inductive Action where
  | data (align : Nat) (bytes : List UInt8)
  | vector (element : Shape)
  | device (access : DeviceAccess)
  | box (i : Nat)
  /-- Value `j` leaves the scope; value `i` is one of those that are left. -/
  | push (j i : Nat) (path : List Turn)
  | pop (i : Nat) (path : List Turn)
  | clear (i : Nat) (path : List Turn)
  | attach (i : Nat) (path : List Turn) (payload : Payload)
  | drop (i : Nat)

abbrev Scope := List AnyValue

namespace Scope

def taking (scope : Scope) (i : Nat) (use : AnyValue → Scope → FirmwareM Scope) :
    FirmwareM Scope :=
  match scope[i]? with
  | some x => use x (scope.eraseIdx i)
  | none => pure scope

def changing (scope : Scope) (i : Nat) (path : List Turn) (change : Change)
    (idle : List AnyValue) : FirmwareM Scope :=
  match scope[i]? with
  | some x => do
      let (value, out) ← changeAt change idle path x.shape x.value
      pure (⟨x.shape, value⟩ :: (out ++ scope.eraseIdx i))
  | none => pure (idle ++ scope)

def perform (scope : Scope) : Action → FirmwareM Scope
  | .data align bytes => pure (⟨.data bytes.length align, ⟨bytes.toArray.toVector⟩⟩ :: scope)
  | .vector element => pure (⟨.vector element, VecWords.ofVec .empty⟩ :: scope)
  | .device access => pure (⟨.device, (Device.new "" access).toDeviceRecord⟩ :: scope)
  | .box i => scope.taking i fun x rest => do
      match ← HeapBox.new x.value with
      | .ok box => pure (⟨.box x.shape, box⟩ :: rest)
      | .error _ => pure rest
  | .push j i path => scope.taking j fun y rest => rest.changing i path (.push y) [y]
  | .pop i path => scope.changing i path .pop []
  | .clear i path => scope.changing i path .clear []
  | .attach i path payload => scope.changing i path (.attach payload) []
  | .drop i => scope.taking i fun x rest => do
      Owned.drop x
      pure rest

def run (scope : Scope) : List Action → FirmwareM Scope
  | [] => pure scope
  | action :: program => do
      let scope ← scope.perform action
      scope.run program

variable {scope : Scope}

theorem deed_taken {i : Nat} {x : AnyValue} (hx : scope[i]? = some x) :
    deed scope = deed x + deed (scope.eraseIdx i) := by
  obtain ⟨hi, rfl⟩ := List.getElem?_eq_some_iff.1 hx
  rw [deed_split hi, List.eraseIdx_eq_take_drop_succ, deed_append]

theorem taking_delivers {i : Nat} {use : AnyValue → Scope → FirmwareM Scope}
    (huse : ∀ x rest, Delivers (use x rest) f blocks (deed x + deed rest) fun scope' _ =>
      deed scope' + Deed.unfunded) :
    Delivers (scope.taking i use) f blocks (deed scope) fun scope' _ =>
      deed scope' + Deed.unfunded := by
  unfold taking
  split
  next x hx =>
    rw [deed_taken hx]
    exact huse x _
  next => exact .pure (Amounts.refl _ _ _).and_unfunded

theorem changing_delivers {change : Change} {idle : List AnyValue}
    (hchange : Conserves (deed idle) change) (scope : Scope) (i : Nat) (path : List Turn) :
    Delivers (scope.changing i path change idle) f blocks (deed scope + deed idle)
      fun scope' _ => deed scope' + Deed.unfunded := by
  unfold changing
  split
  next x hx =>
    rw [deed_taken hx, add_right_comm]
    refine (changeAt_conserves hchange path x.shape x.value f blocks).bind_frame (by simp) ?_
    rintro ⟨value, out⟩ f' blocks' -
    refine .pure ?_
    rw [deed_cons, deed_append, AnyValue.deed_mk, add_right_comm, ← add_assoc]
    exact .refl _ _ _
  next =>
    refine .pure ?_
    rw [deed_append, add_comm]
    exact (Amounts.refl _ _ _).and_unfunded

theorem changing_alone {change : Change} (hchange : Conserves 0 change) (scope : Scope) (i : Nat)
    (path : List Turn) : Delivers (scope.changing i path change []) f blocks (deed scope)
      fun scope' _ => deed scope' + Deed.unfunded := by
  have hnil : Conserves (deed ([] : List AnyValue)) change := hchange
  have hchanging : Delivers (scope.changing i path change []) f blocks (deed scope + 0) _ :=
    changing_delivers hnil scope i path
  rwa [add_zero] at hchanging

theorem push_delivers (i : Nat) (path : List Turn) (y : AnyValue) (rest : Scope) :
    Delivers (rest.changing i path (.push y) [y]) f blocks (deed y + deed rest)
      fun scope' _ => deed scope' + Deed.unfunded := by
  have hchanging : Delivers (rest.changing i path (.push y) [y]) f blocks
      (deed rest + deed [y]) _ := changing_delivers (Change.push_conserves y) rest i path
  rwa [deed_cons, deed_nil, add_zero, add_comm] at hchanging

theorem box_delivers (x : AnyValue) (rest : Scope) :
    Delivers (do
      match ← HeapBox.new x.value with
      | .ok box => pure (⟨.box x.shape, box⟩ :: rest)
      | .error _ => pure rest : FirmwareM Scope) f blocks (deed x + deed rest)
      fun scope' _ => deed scope' + Deed.unfunded := by
  have hnew : Delivers (HeapBox.new x.value) f blocks (deed x.value + Deed.fund 0) _ :=
    HeapBox.new_delivers 0 (by simp) (drop_delivers x.value)
  rw [Deed.fund_zero, add_zero] at hnew
  refine hnew.bind_frame (by simp) ?_
  rintro (error | box) f' blocks' -
  · refine .pure ?_
    change Amounts f' blocks' (Deed.fund 0 + Deed.fact _ + deed rest) _
    rw [Deed.fund_zero, zero_add, add_comm]
    exact .of_fact fun _ => (Amounts.refl _ _ _).and_unfunded
  · refine .pure ?_
    change Amounts f' blocks' (box.keeps x.value + deed x.value + Deed.fund _ + deed rest)
      (deed box + deed rest + Deed.unfunded)
    rw [add_right_comm]
    exact ((box.amounts_closed x.value f' blocks').add (.refl _ _ _)).add fun _ =>
      ⟨trivial, rfl, bot_le⟩

theorem drop_delivers (x : AnyValue) (rest : Scope) :
    Delivers (do
      Owned.drop x
      pure rest : FirmwareM Scope) f blocks (deed x + deed rest)
      fun scope' _ => deed scope' + Deed.unfunded := by
  refine (EarlyBoot.drop_delivers x f blocks).bind_frame (by simp) ?_
  rintro _ f' blocks' -
  rw [zero_add]
  exact .pure (Amounts.refl _ _ _).and_unfunded

theorem perform_delivers (scope : Scope) (action : Action) (f : Firmware)
    (blocks : List BlockInfo) :
    Delivers (scope.perform action) f blocks (deed scope) fun scope' _ =>
      deed scope' + Deed.unfunded := by
  cases action with
  | data align bytes =>
      refine .pure (Amounts.and_unfunded ?_)
      rw [deed_cons]
      change Amounts f blocks (deed scope) (0 + deed scope)
      rw [zero_add]
      exact .refl _ _ _
  | vector element =>
      refine .pure (Amounts.and_unfunded ?_)
      have hempty := VecWords.amounts_ofVec (HeapVec.empty : HeapVec element.Value) [] f blocks
      rw [deed_nil, add_zero] at hempty
      have hnew := ((HeapVec.empty_amounts f blocks).trans hempty).add (.refl f blocks (deed scope))
      rw [zero_add] at hnew
      exact hnew
  | device access =>
      refine .pure (Amounts.and_unfunded ?_)
      rw [deed_cons]
      change Amounts f blocks (deed scope) (0 + deed scope)
      rw [zero_add]
      exact .refl _ _ _
  | box i => exact taking_delivers box_delivers
  | push j i path => exact taking_delivers (push_delivers i path)
  | pop i path => exact changing_alone Change.pop_conserves scope i path
  | clear i path => exact changing_alone Change.clear_conserves scope i path
  | attach i path payload => exact changing_alone (Change.attach_conserves payload) scope i path
  | drop i => exact taking_delivers drop_delivers

theorem run_delivers (program : List Action) (scope : Scope) (f : Firmware)
    (blocks : List BlockInfo) :
    Delivers (scope.run program) f blocks (deed scope + Deed.unfunded) fun scope' _ =>
      deed scope' + Deed.unfunded := by
  -- each action hands on what the next one takes
  induction program generalizing scope f blocks with
  | nil => exact .pure (.refl _ _ _)
  | cons action program ih =>
      refine (scope.perform_delivers action f blocks).bind_frame (by simp) ?_
      rintro scope' f' blocks' -
      rw [add_assoc, Deed.unfunded_add_unfunded]
      exact ih scope' f' blocks'

def owned (scope : Scope) (f : Firmware) : Multiset Nat := (deed scope).holdings f

theorem holds_nothing (hp : f.heap.Placed) (hw : f.heap.WellFormed f.memory blocks) :
    Holds f blocks (0 + Deed.unfunded) :=
  ⟨hp, hw, ⟨trivial, trivial⟩, Multiset.nodup_zero, funded_of_nonpos bot_le⟩

theorem drop_balance (hs : Holds f blocks (deed scope + Deed.unfunded)) {x : AnyValue}
    (hx : x ∈ scope) : ∃ f', Owned.drop x f = .ok () f' ∧
      f'.usedAddresses + owned [x] f = f.usedAddresses := by
  obtain ⟨i, hi, rfl⟩ := List.getElem_of_mem hx
  have hx' : scope[i]? = some scope[i] := List.getElem?_eq_getElem hi
  rw [deed_taken hx', add_assoc] at hs
  have hown := hs.left (.inl (by simp))
  obtain ⟨_, f', blocks', hrun, hexchange⟩ :=
    (EarlyBoot.drop_delivers scope[i] f blocks).run_firmware hown
  have hs' := hexchange.holds hown
  have hbalance := hexchange.balance hown
  refine ⟨f', hrun, ?_⟩
  rw [usedAddresses_eq hs'.placed hs'.wellFormed, usedAddresses_eq hown.placed hown.wellFormed,
    owned, deed_cons, deed_nil, add_zero]
  simpa using hbalance

theorem dropAll_restores (hp : f.heap.Placed) (hw : f.heap.WellFormed f.memory blocks)
    (hrun : Exchanges f blocks (0 + Deed.unfunded) f' blocks' (deed scope + Deed.unfunded))
    {order : List AnyValue} (horder : order.Perm scope) :
    ∃ f'', Owned.dropAll order f' = .ok () f'' ∧
      f''.heap.blocks f''.memory = f.heap.blocks f.memory := by
  have hs := holds_nothing hp hw
  have hdrop := (dropAll_deed_delivers order f' blocks').frame (e := Deed.unfunded) (by simp)
  rw [deed_perm horder] at hdrop
  obtain ⟨_, f'', blocks'', hrun', hexchange⟩ := hdrop.run_firmware (hrun.holds hs)
  refine ⟨f'', hrun', ?_⟩
  rw [hw.blocks_eq hp]
  exact (hrun.trans hexchange).restores hs rfl rfl

/--
Every program ends, whatever requests are refused on its way.  The blocks in
use are then those from before and those owned by what is left in the scope,
each once; any value left can be dropped, and takes its blocks with it; and
when all are dropped, in any order, the heap has the blocks from before.
-/
theorem ownership_exact (hp : f.heap.Placed) (hw : f.heap.WellFormed f.memory blocks)
    (program : List Action) :
    ∃ scope f', run [] program f = .ok scope f' ∧
      f'.usedAddresses = f.usedAddresses + owned scope f' ∧ f'.usedAddresses.Nodup ∧
      (∀ x ∈ scope, ∃ f'', Owned.drop x f' = .ok () f'' ∧
        f''.usedAddresses + owned [x] f' = f'.usedAddresses) ∧
      ∀ order : List AnyValue, order.Perm scope → ∃ f'', Owned.dropAll order f' = .ok () f'' ∧
        f''.heap.blocks f''.memory = f.heap.blocks f.memory := by
  have hs := holds_nothing hp hw
  obtain ⟨scope, f', blocks', hrun, hexchange⟩ :=
    (run_delivers program [] f blocks).run_firmware hs
  have hs' := hexchange.holds hs
  have hbalance := hexchange.balance hs
  refine ⟨scope, f', hrun, ?_, ?_, fun x hx => drop_balance hs' hx,
    fun order => dropAll_restores hp hw hexchange⟩
  · rw [usedAddresses_eq hs'.placed hs'.wellFormed, usedAddresses_eq hp hw]
    simpa [owned] using hbalance
  · rw [usedAddresses_eq hs'.placed hs'.wellFormed]
    exact nodup_usedAddresses hs'.wellFormed

/--
On a heap with a single block the first payload of a device takes that block,
so there is room neither for a second payload nor for a vector to grow.
-/
def crowded : List Action :=
  [.device .pio, .attach 0 [] (.pit ⟨1⟩), .attach 0 [] (.pit ⟨2⟩),
    .data 8 [1, 2, 3, 4, 5, 6, 7, 8], .vector (.data 8 8), .push 1 0 []]

theorem ownership_exact_when_crowded :
    ∃ scope f' f'', run [] crowded Workspace.narrowFirmware = .ok scope f' ∧
      scope.length = 2 ∧ f'.usedAddresses = owned scope f' ∧
      Owned.dropAll scope f' = .ok () f'' ∧ f''.heap.blocks f''.memory = [⟨0, 32, true⟩] := by
  obtain ⟨hp, hw, -⟩ := BlockHeap.init_spec (by decide)
    (Heap.init_eq_ok Workspace.init_narrowFirmware)
  have hblocks : Workspace.narrowFirmware.heap.blocks Workspace.narrowFirmware.memory =
      [⟨0, 32, true⟩] := hw.blocks_eq hp
  have hunused : Workspace.narrowFirmware.usedAddresses = 0 := usedAddresses_eq hp hw
  have hleft : (List.length <$> run [] crowded).run' Workspace.narrowFirmware = some 2 := by
    decide +kernel
  obtain ⟨scope, f', hrun, hused, -, -, hrestored⟩ := ownership_exact hp hw crowded
  obtain ⟨f'', hdrop, hrestored⟩ := hrestored scope (.refl _)
  obtain ⟨f₁, hlength⟩ := answer_of_run hleft
  change EStateM.map List.length (run [] crowded) _ = _ at hlength
  unfold EStateM.map at hlength
  rw [hrun] at hlength
  injection hlength with hlength
  rw [hunused, zero_add] at hused
  exact ⟨scope, f', f'', hrun, hlength, hused, hdrop, hrestored.trans hblocks⟩

end Scope

end EarlyBoot
