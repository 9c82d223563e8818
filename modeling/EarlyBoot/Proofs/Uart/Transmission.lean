import EarlyBoot.Proofs.Bus.Handshake
import EarlyBoot.Uart

/-!
# What goes out on a serial line

On the wire every line feed stands behind a carriage return.  What has been sent
of a text when the transmitter stays busy is the translation of the bytes that
were reported, and perhaps the carriage return of a line feed that was not.
-/

namespace EarlyBoot.Uart

open MachineM (Answers)

variable {β : Type} [PortBus β] {uart : Uart}

/-- A byte may be sent once the line status says that the transmitter is idle. -/
def transmitter (uart : Uart) : Handshake :=
  ⟨uart.base + lineStatusOffset, pollLimit, fun _ status => status &&& transmitIdleBit != 0⟩

def transmitPort (uart : Uart) : UInt16 := uart.base + dataOffset

def onWire (bytes : List UInt8) : List UInt8 :=
  bytes.flatMap fun byte => if byte = lineFeed then [carriageReturn, lineFeed] else [byte]

def transfers (uart : Uart) (bytes : List UInt8) : List Transfer :=
  bytes.map (.sent uart.transmitPort)

theorem transfers_append (uart : Uart) (first second : List UInt8) :
    uart.transfers (first ++ second) = uart.transfers first ++ uart.transfers second :=
  List.map_append

theorem transmit_outcome (uart : Uart) (byte : UInt8) (bus : β) :
    (∃ bus', ∃ c : Conversation uart.transmitter,
      Answers (uart.transmit byte) bus true bus' c.accesses ∧ c.timeout = none ∧
        c.transfers = uart.transfers [byte]) ∨
    ∃ bus', ∃ c : Conversation uart.transmitter,
      Answers (uart.transmit byte) bus false bus' c.accesses ∧ c.timeout ≠ none ∧
        c.transfers = [] := by
  rcases uart.transmitter.await_outcome .send bus with
    ⟨bus₁, reads, hwait, hpass⟩ | ⟨bus', c, hwait, hmissed, hnone⟩
  · obtain ⟨c, hc, htransfers, haccesses⟩ := hpass (.sent uart.transmitPort byte) rfl
    have hwrite : Answers (uart.writeRegister dataOffset byte) bus₁ () _ _ :=
      .writePort .byte uart.transmitPort byte.toUInt32 bus₁
    have hsend : Answers (uart.transmit byte) bus true _ _ :=
      hwait.bind (hwrite.map fun _ => true)
    exact .inl ⟨_, c, haccesses ▸ hsend, hc, htransfers⟩
  · exact .inr ⟨bus', c, hwait.bind_pure rfl,
      fun h => by simp [Conversation.timeout_eq_none_iff.1 h] at hmissed, hnone⟩

theorem send_outcome (uart : Uart) (byte : UInt8) (bus : β) :
    (∃ bus', ∃ c : Conversation uart.transmitter,
      Answers (uart.send byte) bus true bus' c.accesses ∧ c.timeout = none ∧
        c.transfers = uart.transfers (onWire [byte])) ∨
    ∃ bus', ∃ c : Conversation uart.transmitter,
      Answers (uart.send byte) bus false bus' c.accesses ∧ c.timeout ≠ none ∧
        (c.transfers = [] ∨ byte = lineFeed ∧ c.transfers = uart.transfers [carriageReturn]) := by
  unfold send
  split
  next hfeed =>
    subst hfeed
    rcases uart.transmit_outcome carriageReturn bus with
      ⟨bus₁, c, hreturn, hc, htransfers⟩ | ⟨bus', c, hstuck, hc, htransfers⟩
    · rcases uart.transmit_outcome lineFeed bus₁ with
        ⟨bus', d, hsent, hd, htransfers'⟩ | ⟨bus', d, hstuck, hd, htransfers'⟩
      · refine .inl ⟨bus', c.andThen d, Conversation.bind_answers hreturn hc hsent, hd, ?_⟩
        rw [Conversation.transfers_andThen, htransfers, htransfers']
        rfl
      · refine .inr ⟨bus', c.andThen d, Conversation.bind_answers hreturn hc hstuck, hd,
          .inr ⟨rfl, ?_⟩⟩
        rw [Conversation.transfers_andThen, htransfers, htransfers', List.append_nil]
    · exact .inr ⟨bus', c, hstuck.bind_pure rfl, hc, .inl htransfers⟩
  next hplain =>
    have hwire : onWire [byte] = [byte] := by simp [onWire, hplain]
    rw [hwire]
    rcases uart.transmit_outcome byte bus with hsent | ⟨bus', c, hstuck, hc, htransfers⟩
    · exact .inl hsent
    · exact .inr ⟨bus', c, hstuck, hc, .inl htransfers⟩

/-- What has been sent of a text of which `count` bytes are reported. -/
structure Sent (uart : Uart) (bytes : List UInt8) (count : Nat)
    (c : Conversation uart.transmitter) : Prop where
  count_le : count ≤ bytes.length
  transfers : c.transfers = uart.transfers (onWire (bytes.take count)) ∨
    bytes[count]? = some lineFeed ∧ c.timeout ≠ none ∧
      c.transfers = uart.transfers (onWire (bytes.take count) ++ [carriageReturn])
  complete : count = bytes.length ↔ c.timeout = none

theorem Sent.cons {byte : UInt8} {rest : List UInt8} {count : Nat}
    {c d : Conversation uart.transmitter} (hc : c.transfers = uart.transfers (onWire [byte]))
    (hd : uart.Sent rest count d) : uart.Sent (byte :: rest) (count + 1) (c.andThen d) := by
  have hwire : onWire ((byte :: rest).take (count + 1)) =
      onWire [byte] ++ onWire (rest.take count) := by
    rw [List.take_succ_cons, onWire, List.flatMap_cons]
    simp [onWire]
  refine ⟨Nat.succ_le_succ hd.count_le, ?_, ?_⟩
  · rw [Conversation.transfers_andThen, hc, hwire]
    rcases hd.transfers with hsent | ⟨hfeed, hstuck, hsent⟩
    · exact .inl (by rw [hsent, transfers_append])
    · exact .inr ⟨hfeed, hstuck, by rw [hsent, List.append_assoc, ← transfers_append]⟩
  · rw [List.length_cons, Nat.add_right_cancel_iff]
    exact hd.complete

theorem sendFrom_outcome (uart : Uart) (bytes : List UInt8) (before : Nat) (bus : β) :
    ∃ count bus', ∃ c : Conversation uart.transmitter,
      Answers (uart.sendFrom before bytes) bus (before + count) bus' c.accesses ∧
        uart.Sent bytes count c := by
  -- what is reported before does not matter
  induction bytes generalizing before bus with
  | nil =>
      exact ⟨0, bus, .silence, .pure before bus, Nat.le_refl 0, .inl rfl, iff_of_true rfl rfl⟩
  | cons byte rest ih =>
      rcases uart.send_outcome byte bus with
        ⟨bus₁, c, hsend, hc, htransfers⟩ | ⟨bus', c, hsend, hc, htransfers⟩
      · obtain ⟨count, bus', d, hrest, hsent⟩ := ih (before + 1) bus₁
        refine ⟨count + 1, bus', c.andThen d, ?_, hsent.cons htransfers⟩
        rw [← Nat.add_assoc, Nat.add_right_comm]
        exact Conversation.bind_answers hsend hc hrest
      · refine ⟨0, bus', c, hsend.bind_pure rfl, Nat.zero_le _, ?_, iff_of_false (by simp) hc⟩
        rcases htransfers with hnone | ⟨rfl, hreturn⟩
        · exact .inl hnone
        · exact .inr ⟨rfl, hc, hreturn⟩

/--
Whatever the line status answers, the bytes written to the transmitter are the
translation of those reported as sent; behind them there may be the carriage
return of a line feed in front of which the transmitter got stuck.  All bytes
are reported exactly if no wait has expired, and a wait that expires, after as
many reads of the line status as are allowed, is the last thing that happens.
Right before each write the line status has shown an idle transmitter.
-/
theorem writeBytes_translates (uart : Uart) (bytes : List UInt8) (bus : β) :
    ∃ count bus', ∃ c : Conversation uart.transmitter,
      Answers (uart.writeBytes bytes) bus count bus' c.accesses ∧
      uart.Sent bytes count c ∧
      (∀ wait ∈ c.waits, wait.length ≤ pollLimit) ∧
      ∀ before value after,
        c.accesses = before ++ Access.ofWrite .byte uart.transmitPort value :: after →
        ∃ earlier status, status &&& transmitIdleBit ≠ 0 ∧
          before = earlier ++ [.ofByte (uart.base + lineStatusOffset) status] := by
  obtain ⟨count, bus', c, hrun, hsent⟩ := uart.sendFrom_outcome bytes 0 bus
  rw [Nat.zero_add] at hrun
  refine ⟨count, bus', c, hrun, hsent, fun wait => Conversation.length_le_of_mem_waits, ?_⟩
  intro before value after hsplit
  obtain ⟨earlier, status, hready, hbefore⟩ :=
    (Handshake.Permits.conversation c).before_write hsplit fun _ _ _ => Access.ofWrite_ne_read
  exact ⟨earlier, status, bne_iff_ne.1 hready, hbefore⟩

end EarlyBoot.Uart
