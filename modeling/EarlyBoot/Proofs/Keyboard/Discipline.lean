import EarlyBoot.Proofs.Keyboard.BringUp

/-!
# The discipline of the keyboard controller

Whatever operations are asked for one after the other, and whatever the
controller answers, no byte passes without a status that has just allowed it.
An operation is one conversation, so nothing follows a wait that has expired;
bring-up is several.
-/

namespace EarlyBoot.Keyboard

open MachineM (Answers FirmwareOnly Leaves)

variable {α β : Type}

inductive Operation where
  | readConfig
  | writeConfig (config : UInt8)
  | selfTest
  | disablePorts
  | enablePorts (dualChannel : Bool)
  | resetDevice (second : Bool)
  | bringUp (device : Device)

def errorOf (operation : KeyboardM β α) : MachineM β (Option KeyboardError) := do
  match ← operation.run with
  | .ok _ => pure none
  | .error error => pure (some error)

variable [PortBus β]

namespace Operation

def perform : Operation → MachineM β (Option KeyboardError)
  | readConfig => errorOf Keyboard.readConfig
  | writeConfig config => errorOf (Keyboard.writeConfig config)
  | selfTest => errorOf Keyboard.selfTest
  | disablePorts => errorOf Keyboard.disablePorts
  | enablePorts dualChannel => errorOf (Keyboard.enablePorts dualChannel)
  | resetDevice second => errorOf (Keyboard.resetDevice second)
  | bringUp device => do
      let _ ← driver device
      pure none

/-- An operation is one talk, which ends with a wait that expires if the operation says so. -/
def Held : Operation → Option KeyboardError → List Talk → Prop
  | bringUp _, reply, _ => reply = none
  | _, reply, talks => ∃ talk, talks = [talk] ∧
      (talk.timeout.isSome ↔ ∃ name, reply = some (.timeout name))

end Operation

/-- The replies to some operations, and what was said in all of them. -/
inductive Recounts : List Operation → List (Option KeyboardError) → List Talk → Prop
  | nil : Recounts [] [] []
  | cons {operation : Operation} {operations : List Operation} {reply : Option KeyboardError}
      {replies : List (Option KeyboardError)} {talks rest : List Talk}
      (hheld : operation.Held reply talks) (hrest : Recounts operations replies rest) :
      Recounts (operation :: operations) (reply :: replies) (talks ++ rest)

omit [PortBus β] in
theorem errorOf_leaves {x : KeyboardM β α} {course : Course α} (hx : Conducts x course)
    (machine : Machine β) : ∃ (talks : List Talk) (bus' : β),
      Leaves (errorOf x) machine (fun reply => ∃ talk, talks = [talk] ∧
        (talk.timeout.isSome ↔ ∃ name, reply = some (.timeout name))) bus'
        (machine.trace.recordAll (talks.flatMap Conversation.accesses)) := by
  obtain ⟨reply, bus', talk, hrun, htimeout, -⟩ := hx machine.bus
  have hanswers : Answers (errorOf x) machine.bus (match reply with
      | .ok _ => none
      | .error error => some error) bus' ([talk].flatMap Conversation.accesses) := by
    refine hrun.bind ?_
    cases reply with
    | ok a => exact .pure none bus'
    | error error => exact .pure (some error) bus'
  obtain ⟨firmware', -, hrun'⟩ := hanswers machine.firmware machine.trace
  refine ⟨[talk], bus', firmware', .inl ⟨_, ⟨talk, rfl, ?_⟩, hrun'⟩⟩
  rw [Conversation.missed, Option.isSome_map] at htimeout
  rw [htimeout]
  cases reply <;> simp

theorem driver_leaves (device : Device) (machine : Machine β) : ∃ (talks : List Talk) (bus' : β),
    Leaves (driver device) machine (fun _ => True) bus'
      (machine.trace.recordAll (talks.flatMap Conversation.accesses)) := by
  obtain ⟨talks, finding, bus', hfinds, -⟩ := driver_outcome machine.bus
  obtain ⟨firmware', -, hrun⟩ := hfinds device machine.firmware machine.trace
  have hsettle : FirmwareOnly (Device.settle finding device : MachineM β _) fun _ => True := by
    cases finding with
    | ok payload => exact .lift (device.complete payload)
    | error status => exact .pure trivial
  exact ⟨talks, bus', .of_eq hrun (hsettle firmware' bus' _)⟩

theorem Operation.perform_leaves (operation : Operation) (machine : Machine β) :
    ∃ (talks : List Talk) (bus' : β),
      Leaves operation.perform machine (fun reply => operation.Held reply talks) bus'
        (machine.trace.recordAll (talks.flatMap Conversation.accesses)) := by
  cases operation with
  | readConfig => exact errorOf_leaves readConfig_conducts machine
  | writeConfig config => exact errorOf_leaves (writeConfig_conducts config) machine
  | selfTest => exact errorOf_leaves selfTest_conducts machine
  | disablePorts => exact errorOf_leaves disablePorts_conducts machine
  | enablePorts dualChannel => exact errorOf_leaves (enablePorts_conducts dualChannel) machine
  | resetDevice second => exact errorOf_leaves (resetDevice_conducts second) machine
  | bringUp device =>
      obtain ⟨talks, bus', firmware', ⟨_, -, hrun⟩ | ⟨reason, hrun⟩⟩ := driver_leaves device machine
      · exact ⟨talks, bus', firmware', .inl ⟨none, rfl, bind_of_answer hrun⟩⟩
      · exact ⟨talks, bus', firmware', .inr ⟨reason, bind_of_halt hrun⟩⟩

theorem performs_leaves (operations : List Operation) (machine : Machine β) :
    ∃ (talks : List Talk) (bus' : β),
      Leaves (operations.mapM Operation.perform) machine (Recounts operations · talks) bus'
        (machine.trace.recordAll (talks.flatMap Conversation.accesses)) := by
  -- an operation that halts is the last one
  induction operations generalizing machine with
  | nil => exact ⟨[], machine.bus, machine.firmware, .inl ⟨[], .nil, rfl⟩⟩
  | cons operation operations ih =>
      rw [List.mapM_cons]
      obtain ⟨talks, bus₁, firmware₁, ⟨reply, hheld, hrun⟩ | ⟨reason, hrun⟩⟩ :=
        operation.perform_leaves machine
      · obtain ⟨rest, bus', firmware', hrest⟩ := ih ⟨firmware₁, bus₁, _⟩
        refine ⟨talks ++ rest, bus', firmware', ?_⟩
        rw [List.flatMap_append, Trace.recordAll_append]
        rcases hrest with ⟨replies, hreplies, hrun'⟩ | ⟨reason, hrun'⟩
        · exact .inl ⟨reply :: replies, .cons hheld hreplies,
            (bind_of_answer hrun).trans (bind_of_answer hrun')⟩
        · exact .inr ⟨reason, (bind_of_answer hrun).trans (bind_of_halt hrun')⟩
      · exact ⟨talks, bus₁, firmware₁, .inr ⟨reason, bind_of_halt hrun⟩⟩

/--
Whatever operations are performed, each write stands directly behind a status
whose input is not full, and each read of the data port directly behind a status
whose output is full.  No wait reads the status more often than it may.  An
operation reports a timeout exactly if a wait of it has expired, and that wait
is then the last thing that it does.
-/
theorem operations_keep_discipline (operations : List Operation) (machine : Machine β) :
    ∃ (talks : List Talk) (bus' : β),
      Leaves (operations.mapM Operation.perform) machine (Recounts operations · talks) bus'
        (machine.trace.recordAll (talks.flatMap Conversation.accesses)) ∧
      (∀ talk ∈ talks, ∀ wait ∈ talk.waits, wait.length ≤ pollLimit) ∧
      (∀ before width port value after,
        talks.flatMap Conversation.accesses = before ++ .write width port value :: after →
        ∃ earlier status, status &&& inputFullBit = 0 ∧
          before = earlier ++ [.ofByte statusPort status]) ∧
      ∀ before width value after,
        talks.flatMap Conversation.accesses = before ++ .read width dataPort value :: after →
        ∃ earlier status, status &&& outputFullBit ≠ 0 ∧
          before = earlier ++ [.ofByte statusPort status] := by
  obtain ⟨talks, bus', hleaves⟩ := performs_leaves operations machine
  have hpermits : controller.Permits (talks.flatMap Conversation.accesses) :=
    .flatMap fun talk _ => .conversation talk
  refine ⟨talks, bus', hleaves, fun talk _ wait => Conversation.length_le_of_mem_waits, ?_, ?_⟩
  · intro before width port value after hsplit
    obtain ⟨earlier, status, hready, hbefore⟩ := hpermits.before_write hsplit (by simp)
    exact ⟨earlier, status, beq_iff_eq.1 hready, hbefore⟩
  · intro before width value after hsplit
    obtain ⟨earlier, status, hready, hbefore⟩ := hpermits.before_read hsplit (by decide)
    exact ⟨earlier, status, bne_iff_ne.1 hready, hbefore⟩

end EarlyBoot.Keyboard
