import EarlyBoot.Proofs.Bus.Polling

/-!
# Conversations with a device

A device that is not always ready is asked for its status before each byte that
goes to it or comes from it.  A conversation is a list of exchanges, each of
them a wait that ended in time with the transfer for which it was made; a wait
that expires is the last thing that happens in it.
-/

namespace EarlyBoot

inductive Direction where
  | send
  | receive
  deriving DecidableEq, Repr

inductive Transfer where
  | sent (port : UInt16) (value : UInt8)
  | received (port : UInt16) (value : UInt8)
  deriving DecidableEq, Repr

namespace Transfer

def direction : Transfer → Direction
  | sent .. => .send
  | received .. => .receive

def access : Transfer → Access
  | sent port value => .ofWrite .byte port value.toUInt32
  | received port value => .ofByte port value

end Transfer

/-- Where a device shows its status, which status lets a byte pass, and how often it is read. -/
structure Handshake where
  statusPort : UInt16
  limit : Nat
  ready : Direction → UInt8 → Bool

variable {α β γ : Type} {h : Handshake}

/-- A wait that ended in time, and the transfer behind it. -/
structure Exchange (h : Handshake) where
  busy : List UInt8
  status : UInt8
  transfer : Transfer
  length_lt : busy.length < h.limit
  not_ready : ∀ s ∈ busy, h.ready transfer.direction s = false
  ready : h.ready transfer.direction status = true

/-- A wait that expired: as many statuses as may be read, and none of them ready. -/
structure Timeout (h : Handshake) where
  direction : Direction
  busy : List UInt8
  length_eq : busy.length = h.limit
  not_ready : ∀ s ∈ busy, h.ready direction s = false

structure Conversation (h : Handshake) where
  exchanges : List (Exchange h)
  timeout : Option (Timeout h)

namespace Exchange

def wait (e : Exchange h) : List UInt8 := e.busy ++ [e.status]

def accesses (e : Exchange h) : List Access :=
  e.wait.map (.ofByte h.statusPort) ++ [e.transfer.access]

end Exchange

def Timeout.accesses (t : Timeout h) : List Access := t.busy.map (.ofByte h.statusPort)

namespace Conversation

def accesses (c : Conversation h) : List Access :=
  c.exchanges.flatMap Exchange.accesses ++ c.timeout.toList.flatMap Timeout.accesses

def transfers (c : Conversation h) : List Transfer := c.exchanges.map Exchange.transfer

def missed (c : Conversation h) : Option Direction := c.timeout.map Timeout.direction

def waits (c : Conversation h) : List (List UInt8) :=
  c.exchanges.map Exchange.wait ++ c.timeout.toList.map Timeout.busy

theorem length_le_of_mem_waits {c : Conversation h} {wait : List UInt8} (hwait : wait ∈ c.waits) :
    wait.length ≤ h.limit := by
  rcases List.mem_append.1 hwait with hwait | hwait
  · obtain ⟨e, -, rfl⟩ := List.mem_map.1 hwait
    have hlength := e.length_lt
    simp only [Exchange.wait, List.length_append, List.length_singleton]
    omega
  · obtain ⟨t, -, rfl⟩ := List.mem_map.1 hwait
    exact t.length_eq.le

def silence : Conversation h := ⟨[], none⟩

def exchange (e : Exchange h) : Conversation h := ⟨[e], none⟩

def expired (t : Timeout h) : Conversation h := ⟨[], some t⟩

def andThen (c d : Conversation h) : Conversation h := ⟨c.exchanges ++ d.exchanges, d.timeout⟩

@[simp] theorem accesses_silence : (silence : Conversation h).accesses = [] := rfl

@[simp] theorem accesses_exchange (e : Exchange h) : (exchange e).accesses = e.accesses := by
  simp [exchange, accesses]

@[simp] theorem accesses_expired (t : Timeout h) : (expired t).accesses = t.accesses := by
  simp [expired, accesses]

theorem accesses_andThen {c : Conversation h} (hc : c.timeout = none) (d : Conversation h) :
    (c.andThen d).accesses = c.accesses ++ d.accesses := by
  simp [andThen, accesses, hc]

@[simp] theorem transfers_silence : (silence : Conversation h).transfers = [] := rfl

@[simp] theorem transfers_exchange (e : Exchange h) : (exchange e).transfers = [e.transfer] := rfl

@[simp] theorem transfers_expired (t : Timeout h) : (expired t).transfers = [] := rfl

@[simp] theorem transfers_andThen (c d : Conversation h) :
    (c.andThen d).transfers = c.transfers ++ d.transfers := List.map_append

@[simp] theorem missed_silence : (silence : Conversation h).missed = none := rfl

@[simp] theorem missed_exchange (e : Exchange h) : (exchange e).missed = none := rfl

@[simp] theorem missed_expired (t : Timeout h) : (expired t).missed = some t.direction := rfl

@[simp] theorem missed_andThen (c d : Conversation h) : (c.andThen d).missed = d.missed := rfl

theorem timeout_eq_none_iff {c : Conversation h} : c.timeout = none ↔ c.missed = none :=
  Option.map_eq_none_iff.symm

theorem bind_answers {x : MachineM β α} {f : α → MachineM β γ} {a : α} {b : γ} {bus bus₁ bus' : β}
    {c d : Conversation h} (hx : x.Answers bus a bus₁ c.accesses) (hc : c.timeout = none)
    (hf : (f a).Answers bus₁ b bus' d.accesses) :
    (x >>= f).Answers bus b bus' (c.andThen d).accesses := by
  rw [accesses_andThen hc]
  exact hx.bind hf

end Conversation

/-- Right before each access but the status reads themselves, the status has been ready for it. -/
def Handshake.Permits (h : Handshake) (accesses : List Access) : Prop :=
  ∀ before access after, accesses = before ++ access :: after →
    (∃ status, access = .ofByte h.statusPort status) ∨
    ∃ transfer : Transfer, access = transfer.access ∧
      ∃ earlier status, h.ready transfer.direction status = true ∧
        before = earlier ++ [.ofByte h.statusPort status]

namespace Handshake.Permits

variable {first second : List Access}

theorem append (hfirst : h.Permits first) (hsecond : h.Permits second) :
    h.Permits (first ++ second) := by
  intro before access after hsplit
  rcases List.append_eq_append_iff.1 hsplit with ⟨middle, rfl, hrest⟩ | ⟨middle, hrest, hafter⟩
  · rcases hsecond middle access after hrest with
      hstatus | ⟨transfer, haccess, earlier, status, hready, rfl⟩
    · exact .inl hstatus
    · exact .inr ⟨transfer, haccess, first ++ earlier, status, hready,
        (List.append_assoc _ _ _).symm⟩
  · cases middle with
    | nil =>
        rw [List.append_nil] at hrest
        rcases hsecond [] access after hafter.symm with
          hstatus | ⟨_, _, earlier, _, _, hnone⟩
        · exact .inl hstatus
        · simp at hnone
    | cons access' rest =>
        obtain ⟨rfl, -⟩ := List.cons.inj hafter
        exact hfirst before access rest hrest

theorem flatMap {xs : List α} {made : α → List Access} (hmade : ∀ x ∈ xs, h.Permits (made x)) :
    h.Permits (xs.flatMap made) := by
  induction xs with
  | nil => exact fun before access after hsplit => by simp at hsplit
  | cons x rest ih =>
      rw [List.flatMap_cons]
      exact (hmade x (.head rest)).append (ih fun y hy => hmade y (.tail x hy))

theorem reads (statuses : List UInt8) : h.Permits (statuses.map (.ofByte h.statusPort)) := by
  intro before access after hsplit
  have hmem : access ∈ statuses.map (.ofByte h.statusPort) := by simp [hsplit]
  obtain ⟨status, -, hstatus⟩ := List.mem_map.1 hmem
  exact .inl ⟨status, hstatus.symm⟩

theorem exchange (e : Exchange h) : h.Permits e.accesses := by
  intro before access after hsplit
  rcases after.eq_nil_or_concat with rfl | ⟨rest, last, rfl⟩
  · -- The last access is the transfer, and the one before it found the device ready.
    obtain ⟨rfl, haccess⟩ := List.append_inj' hsplit rfl
    exact .inr ⟨e.transfer, (List.cons.inj haccess).1.symm, e.busy.map (.ofByte h.statusPort),
      e.status, e.ready, by simp [Exchange.wait]⟩
  · have hwait : e.wait.map (.ofByte h.statusPort) = before ++ access :: rest := by
      have hlast := hsplit
      rw [List.concat_eq_append, ← List.cons_append, ← List.append_assoc] at hlast
      exact (List.append_inj' hlast rfl).1
    exact reads e.wait before access rest hwait

theorem conversation (c : Conversation h) : h.Permits c.accesses :=
  (flatMap fun e _ => exchange e).append (flatMap fun t _ => reads t.busy)

variable {accesses before after : List Access} {access : Access}

theorem before_write (hp : h.Permits accesses) (hsplit : accesses = before ++ access :: after)
    (hwrite : ∀ width port value, access ≠ .read width port value) :
    ∃ earlier status, h.ready .send status = true ∧
      before = earlier ++ [.ofByte h.statusPort status] := by
  rcases hp before access after hsplit with
    ⟨status, rfl⟩ | ⟨transfer, rfl, earlier, status, hready, hbefore⟩
  · exact absurd rfl (hwrite _ _ _)
  · cases transfer with
    | sent port value => exact ⟨earlier, status, hready, hbefore⟩
    | received port value => exact absurd rfl (hwrite _ _ _)

theorem before_read (hp : h.Permits accesses) {width : Width} {port : UInt16} {value : UInt32}
    (hsplit : accesses = before ++ .read width port value :: after)
    (hport : port ≠ h.statusPort) :
    ∃ earlier status, h.ready .receive status = true ∧
      before = earlier ++ [.ofByte h.statusPort status] := by
  rcases hp before _ after hsplit with
    ⟨status, hread⟩ | ⟨transfer, haccess, earlier, status, hready, hbefore⟩
  · cases hread
    exact absurd rfl hport
  · cases transfer with
    | sent port value => exact absurd haccess.symm Access.ofWrite_ne_read
    | received port value => exact ⟨earlier, status, hready, hbefore⟩

end Handshake.Permits

namespace Handshake

variable [PortBus β]

open MachineM (Answers FirstTurn Polls pollUntil pollUntil_polls turns turns_eq_flatMap)
open PortBus (behind byteAt)

def await (h : Handshake) (direction : Direction) : MachineM β Bool :=
  pollUntil (do return h.ready direction (← MachineM.readByte h.statusPort)) h.limit

def statuses (h : Handshake) (count : Nat) (bus : β) : List UInt8 :=
  (List.range count).map fun i => byteAt h.statusPort ((behind .byte h.statusPort)^[i] bus)

theorem turns_eq_statuses (h : Handshake) (count : Nat) (bus : β) :
    turns (fun bus => [.ofByte h.statusPort (byteAt h.statusPort bus)])
      (behind .byte h.statusPort) count bus =
      (h.statuses count bus).map (.ofByte h.statusPort) := by
  rw [turns_eq_flatMap, statuses, List.map_map, List.map_eq_flatMap]
  rfl

theorem statuses_not_ready {h : Handshake} {direction : Direction} {count : Nat} {bus : β}
    (hbusy : ∀ i < count,
      ¬ h.ready direction (byteAt h.statusPort ((behind .byte h.statusPort)^[i] bus)) = true) :
    ∀ s ∈ h.statuses count bus, h.ready direction s = false := by
  intro s hs
  obtain ⟨i, hi, rfl⟩ := List.mem_map.1 hs
  exact Bool.eq_false_iff.2 (hbusy i (List.mem_range.1 hi))

theorem await_outcome (h : Handshake) (direction : Direction) (bus : β) :
    (∃ bus' reads, Answers (h.await direction) bus true bus' reads ∧
      ∀ transfer : Transfer, transfer.direction = direction → ∃ c : Conversation h,
        c.timeout = none ∧ c.transfers = [transfer] ∧ c.accesses = reads ++ [transfer.access]) ∨
    ∃ bus', ∃ c : Conversation h, Answers (h.await direction) bus false bus' c.accesses ∧
      c.missed = some direction ∧ c.transfers = [] := by
  rcases (pollUntil_polls (MachineM.readByte h.statusPort) (h.ready direction)).outcome
    (fun bus => Answers.readByte h.statusPort bus) h.limit bus with
    ⟨n, hfirst, hrun⟩ | ⟨hnever, hrun⟩
  · rw [turns_eq_statuses] at hrun
    refine .inl ⟨_, _, hrun, fun transfer hdirection => ?_⟩
    let e : Exchange h :=
      { busy := h.statuses n bus
        status := byteAt h.statusPort ((behind .byte h.statusPort)^[n] bus)
        transfer
        length_lt := by simpa [statuses] using hfirst.lt
        not_ready := hdirection ▸ statuses_not_ready hfirst.before
        ready := hdirection ▸ hfirst.holds }
    have hwait : e.wait = h.statuses (n + 1) bus := by
      simp [e, Exchange.wait, statuses, List.range_succ]
    refine ⟨.exchange e, rfl, rfl, ?_⟩
    rw [Conversation.accesses_exchange, Exchange.accesses, hwait]
  · rw [turns_eq_statuses] at hrun
    let t : Timeout h :=
      ⟨direction, h.statuses h.limit bus, by simp [statuses], statuses_not_ready hnever⟩
    have haccesses : (Conversation.expired t).accesses = t.busy.map (.ofByte h.statusPort) :=
      Conversation.accesses_expired t
    exact .inr ⟨_, .expired t, haccesses ▸ hrun, rfl, rfl⟩

end Handshake

end EarlyBoot
