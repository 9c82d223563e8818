import EarlyBoot.Keyboard
import EarlyBoot.Proofs.Bus.Handshake

/-!
# Talking to the keyboard controller

Every operation sends some bytes one after the other, and some of them then
await an answer.  The controller may stop taking input in front of any of the
bytes, and it may not answer; then the operation reports a timeout and does
nothing more.  Otherwise it is the answer that decides.
-/

namespace EarlyBoot.Keyboard

open MachineM (Answers readByte writeByte)
open PortBus (behind byteAt)

variable {α β γ : Type}

/-- The controller takes a byte if its input is not full, and gives one if its output is. -/
def controller : Handshake :=
  ⟨statusPort, pollLimit, fun
    | .send, status => status &&& inputFullBit == 0
    | .receive, status => status &&& outputFullBit != 0⟩

abbrev Talk := Conversation controller

def command (value : UInt8) : Transfer := .sent statusPort value

def data (value : UInt8) : Transfer := .sent dataPort value

def answer (value : UInt8) : Transfer := .received dataPort value

section Failing

variable {x : KeyboardM β α} {f : α → KeyboardM β γ} {a : α} {error : KeyboardError}
  {reply : Except KeyboardError γ} {bus bus₁ bus' : β} {first second : List Access}

theorem bind_of_ok (hx : Answers x.run bus (.ok a) bus₁ first)
    (hf : Answers (f a).run bus₁ reply bus' second) :
    Answers (x >>= f).run bus reply bus' (first ++ second) :=
  hx.bind hf

theorem bind_of_error (hx : Answers x.run bus (.error error) bus' first) :
    Answers (x >>= f).run bus (.error error) bus' first :=
  hx.bind_pure rfl

end Failing

variable [PortBus β]

theorem pass_outcome (direction : Direction) (operation : String) {x : MachineM β α}
    {value : β → α} {next : β → β} (transfer : β → Transfer)
    (hx : ∀ bus, Answers x bus (value bus) (next bus) [(transfer bus).access])
    (hdirection : ∀ bus, (transfer bus).direction = direction) (bus : β) :
    (∃ bus₁ bus', ∃ talk : Talk,
      Answers (do
        await (do return controller.ready direction (← readByte controller.statusPort)) operation
        ExceptT.lift x : KeyboardM β α).run bus (.ok (value bus₁)) bus' talk.accesses ∧
      talk.timeout = none ∧ talk.transfers = [transfer bus₁]) ∨
    ∃ bus', ∃ talk : Talk,
      Answers (do
        await (do return controller.ready direction (← readByte controller.statusPort)) operation
        ExceptT.lift x : KeyboardM β α).run bus (.error (.timeout operation)) bus' talk.accesses ∧
      talk.missed = some direction ∧ talk.transfers = [] := by
  rcases controller.await_outcome direction bus with
    ⟨bus₁, reads, hwait, hpass⟩ | ⟨bus', talk, hwait, hmissed, hnone⟩
  · obtain ⟨talk, htalk, htransfers, haccesses⟩ := hpass (transfer bus₁) (hdirection bus₁)
    have hready : Answers (await _ operation).run bus (.ok ()) bus₁ reads :=
      (hwait.map Except.ok).bind_pure rfl
    have hlift : Answers (ExceptT.lift x : KeyboardM β α).run bus₁ (.ok (value bus₁)) _ _ :=
      (hx bus₁).map Except.ok
    exact .inl ⟨bus₁, _, talk, haccesses ▸ bind_of_ok hready hlift, htalk, htransfers⟩
  · have hexpired : Answers (await _ operation).run bus (.error (.timeout operation)) bus' _ :=
      (hwait.map Except.ok).bind_pure rfl
    exact .inr ⟨bus', talk, bind_of_error hexpired, hmissed, hnone⟩

theorem send_outcome (port : UInt16) (value : UInt8) (operation : String) (bus : β) :
    (∃ bus', ∃ talk : Talk, Answers (send port value operation).run bus (.ok ()) bus'
      talk.accesses ∧ talk.timeout = none ∧ talk.transfers = [.sent port value]) ∨
    ∃ bus', ∃ talk : Talk, Answers (send port value operation).run bus
      (.error (.timeout operation)) bus' talk.accesses ∧
      talk.missed = some .send ∧ talk.transfers = [] := by
  rcases pass_outcome .send operation (fun _ => .sent port value)
    (fun bus => Answers.writePort .byte port value.toUInt32 bus) (fun _ => rfl) bus with
    ⟨-, hsent⟩ | hstuck
  · exact .inl hsent
  · exact .inr hstuck

theorem receive_outcome (operation : String) (bus : β) :
    (∃ value bus', ∃ talk : Talk, Answers (receive operation).run bus (.ok value) bus'
      talk.accesses ∧ talk.timeout = none ∧ talk.transfers = [answer value]) ∨
    ∃ bus', ∃ talk : Talk, Answers (receive operation).run bus
      (.error (.timeout operation)) bus' talk.accesses ∧
      talk.missed = some .receive ∧ talk.transfers = [] := by
  rcases pass_outcome .receive operation (fun bus => answer (byteAt dataPort bus))
    (Answers.readByte dataPort) (fun _ => rfl) bus with ⟨bus₁, hheard⟩ | hsilent
  · exact .inl ⟨byteAt dataPort bus₁, hheard⟩
  · exact .inr hsilent

/-- How an operation may go: its reply, the bytes that passed, and what it waited for in vain. -/
abbrev Course (α : Type) :=
  Except KeyboardError α → List Transfer → Option Direction → Prop

inductive Finishes (a : α) : Course α
  | done : Finishes a (.ok a) [] none

inductive Hears (check : UInt8 → Except KeyboardError α) : Course α
  | answered (value : UInt8) : Hears check (check value) [answer value] none
  | silent (operation : String) : Hears check (.error (.timeout operation)) [] (some .receive)

inductive Sends (script : List Transfer) (rest : Course α) : Course α
  | through {reply : Except KeyboardError α} {transfers : List Transfer}
      {missed : Option Direction} (hrest : rest reply transfers missed) :
      Sends script rest reply (script ++ transfers) missed
  | stuck (operation : String) (count : Nat) (hcount : count < script.length) :
      Sends script rest (.error (.timeout operation)) (script.take count) (some .send)

/-- On every bus the operation goes as it may, and it reports a timeout exactly behind one. -/
def Conducts (x : KeyboardM β α) (course : Course α) : Prop :=
  ∀ bus, ∃ reply bus', ∃ talk : Talk, Answers x.run bus reply bus' talk.accesses ∧
    (talk.missed.isSome ↔ ∃ operation, reply = .error (.timeout operation)) ∧
    course reply talk.transfers talk.missed

namespace Conducts

variable {x : KeyboardM β α} {rest : Course α} {script : List Transfer}

omit [PortBus β] in
theorem pure (a : α) : Conducts (pure a : KeyboardM β α) (Finishes a) :=
  fun bus => ⟨.ok a, bus, .silence, .pure _ bus, by simp, .done⟩

omit [PortBus β] in
theorem nothing_to_send (hx : Conducts x rest) : Conducts x (Sends [] rest) := by
  intro bus
  obtain ⟨reply, bus', talk, hrun, htimeout, hrest⟩ := hx bus
  exact ⟨reply, bus', talk, hrun, htimeout, .through hrest⟩

theorem send (port : UInt16) (value : UInt8) (operation : String)
    (hx : Conducts x (Sends script rest)) :
    Conducts (do Keyboard.send port value operation; x)
      (Sends (.sent port value :: script) rest) := by
  intro bus
  rcases send_outcome port value operation bus with
    ⟨bus₁, talk, hsend, hdone, hsent⟩ | ⟨bus', talk, hsend, hmissed, hnone⟩
  · obtain ⟨reply, bus', talk', hrun, htimeout, hcourse⟩ := hx bus₁
    refine ⟨reply, bus', talk.andThen talk', ?_, by simpa using htimeout, ?_⟩
    · rw [Conversation.accesses_andThen hdone]
      exact bind_of_ok hsend hrun
    · rw [Conversation.transfers_andThen, Conversation.missed_andThen, hsent]
      generalize talk'.transfers = transfers, talk'.missed = missed at hcourse ⊢
      cases hcourse with
      | through hrest => exact .through hrest
      | stuck operation count hcount =>
          exact .stuck operation (count + 1) (Nat.succ_lt_succ hcount)
  · refine ⟨_, bus', talk, bind_of_error hsend, by simp [hmissed], ?_⟩
    rw [hmissed, hnone]
    exact .stuck operation 0 (Nat.zero_lt_succ script.length)

theorem last (port : UInt16) (value : UInt8) (operation : String) :
    Conducts (Keyboard.send port value operation : KeyboardM β Unit)
      (Sends [.sent port value] (Finishes ())) := by
  have hsend : Conducts (do Keyboard.send port value operation; Pure.pure () : KeyboardM β Unit)
      (Sends [.sent port value] (Finishes ())) :=
    send port value operation (nothing_to_send (pure ()))
  rwa [bind_pure_unit] at hsend

theorem receive (operation : String) {f : UInt8 → KeyboardM β α}
    {check : UInt8 → Except KeyboardError α}
    (hf : ∀ value, f value = ExceptT.mk (Pure.pure (check value)))
    (hcheck : ∀ value name, check value ≠ .error (.timeout name)) :
    Conducts (Keyboard.receive operation >>= f) (Hears check) := by
  intro bus
  rcases receive_outcome operation bus with
    ⟨value, bus₁, talk, hreceive, hdone, hheard⟩ | ⟨bus', talk, hreceive, hmissed, hnone⟩
  · have hmissed := Conversation.timeout_eq_none_iff.1 hdone
    refine ⟨check value, bus₁, talk, hreceive.bind_pure (hf value), by simp [hmissed, hcheck], ?_⟩
    rw [hmissed, hheard]
    exact .answered value
  · refine ⟨_, bus', talk, bind_of_error hreceive, by simp [hmissed], ?_⟩
    rw [hmissed, hnone]
    exact .silent operation

end Conducts

def expecting (wanted : UInt8) (operation : String) (response : UInt8) :
    Except KeyboardError Unit :=
  if response = wanted then .ok () else .error (.unexpectedResponse operation response)

omit [PortBus β] in
theorem expect_eq (response wanted : UInt8) (operation : String) :
    (expect response wanted operation : KeyboardM β Unit) =
      ExceptT.mk (pure (expecting wanted operation response)) := by
  unfold expect expecting
  split <;> rfl

theorem expecting_eq_ok_iff {wanted response : UInt8} {operation : String} :
    expecting wanted operation response = .ok () ↔ response = wanted := by
  unfold expecting
  split <;> simp_all

theorem expecting_ne_timeout (wanted : UInt8) (operation : String) (response : UInt8)
    (name : String) : expecting wanted operation response ≠ .error (.timeout name) := by
  unfold expecting
  split <;> simp

theorem receive_expect_conducts (wanted : UInt8) (operation : String) (name : String) :
    Conducts (do expect (← receive name) wanted operation : KeyboardM β Unit)
      (Hears (expecting wanted operation)) :=
  .receive name (expect_eq · wanted operation) (expecting_ne_timeout wanted operation)

def readConfigCourse : Course UInt8 := Sends [command readConfigCommand] (Hears .ok)

def writeConfigCourse (config : UInt8) : Course Unit :=
  Sends [command writeConfigCommand, data config, command readConfigCommand]
    (Hears (expecting config "write config"))

def selfTestCourse : Course Unit :=
  Sends [command selfTestCommand] (Hears (expecting selfTestPassed "self test"))

theorem readConfig_conducts : Conducts (readConfig : KeyboardM β UInt8) readConfigCourse := by
  have hreceive : Conducts (receive "read config" >>= pure : KeyboardM β UInt8) (Hears .ok) :=
    .receive "read config" (fun _ => rfl) (by simp)
  rw [bind_pure] at hreceive
  exact .send _ _ _ (.nothing_to_send hreceive)

theorem writeConfig_conducts (config : UInt8) :
    Conducts (writeConfig config : KeyboardM β Unit) (writeConfigCourse config) := by
  unfold writeConfig readConfig
  rw [bind_assoc]
  exact .send _ _ _ (.send _ _ _ (.send _ _ _ (.nothing_to_send
    (receive_expect_conducts config "write config" "read config"))))

theorem selfTest_conducts : Conducts (selfTest : KeyboardM β Unit) selfTestCourse :=
  .send _ _ _ (.nothing_to_send (receive_expect_conducts _ _ _))

theorem disablePorts_conducts :
    Conducts (disablePorts : KeyboardM β Unit)
      (Sends [command disableFirstCommand, command disableSecondCommand] (Finishes ())) :=
  .send _ _ _ (.last _ _ _)

theorem enablePorts_conducts (dualChannel : Bool) :
    Conducts (enablePorts dualChannel : KeyboardM β Unit)
      (Sends (command enableFirstCommand ::
        if dualChannel then [command enableSecondCommand] else []) (Finishes ())) := by
  cases dualChannel with
  | true => exact .send _ _ _ (.last _ _ _)
  | false => exact .send _ _ _ (.nothing_to_send (.pure ()))

theorem resetDevice_conducts (second : Bool) :
    Conducts (resetDevice second : KeyboardM β Unit)
      (Sends ((if second then [command writeSecondCommand] else []) ++ [data deviceReset])
        (Hears (expecting deviceAcknowledge "reset device"))) := by
  have hreset : Conducts (do
      sendData deviceReset "reset device"
      expect (← receive "reset device") deviceAcknowledge "reset device" : KeyboardM β Unit)
      (Sends [data deviceReset] (Hears (expecting deviceAcknowledge "reset device"))) :=
    .send _ _ _ (.nothing_to_send (receive_expect_conducts _ _ _))
  cases second with
  | true => exact .send _ _ _ hreset
  | false => exact hreset

namespace Sends

variable {script : List Transfer} {check : UInt8 → Except KeyboardError α} {wanted : UInt8}
  {operation : String} {reply : Except KeyboardError α} {error : KeyboardError}
  {said : List Transfer} {missed : Option Direction}

theorem ends (h : Sends script (Hears check) reply said missed) :
    (missed = none ∧ ∃ value, reply = check value ∧ said = script ++ [answer value]) ∨
      ∃ operation direction, missed = some direction ∧ reply = .error (.timeout operation) ∧
        said <+: script ∧ (direction = .receive → said = script) := by
  cases h with
  | through hrest =>
      cases hrest with
      | answered value => exact .inl ⟨rfl, value, rfl, rfl⟩
      | silent operation =>
          rw [List.append_nil]
          exact .inr ⟨operation, .receive, rfl, rfl, List.prefix_rfl, fun _ => rfl⟩
  | stuck operation count hcount =>
      exact .inr ⟨operation, .send, rfl, rfl, List.take_prefix count script, by simp⟩

theorem expected {reply : Except KeyboardError Unit}
    (h : Sends script (Hears (expecting wanted operation)) reply said missed) :
    ∃ response, said <+: script ++ [answer response] ∧ (missed = some .send ∨ script <+: said) ∧
      (reply = .ok () → said = script ++ [answer wanted]) ∧
      (reply ≠ .ok () → response ≠ wanted) := by
  rcases h.ends with ⟨-, response, rfl, rfl⟩ | ⟨name, direction, rfl, rfl, hsaid, hall⟩
  · refine ⟨response, List.prefix_rfl, .inr (List.prefix_append _ _), ?_, ?_⟩
    · intro hok
      rw [expecting_eq_ok_iff.1 hok]
    · exact fun hwrong hsame => hwrong (expecting_eq_ok_iff.2 hsame)
  · refine ⟨wanted + 1, hsaid.trans (List.prefix_append _ _), ?_, by simp, by simp⟩
    cases direction with
    | send => exact .inl rfl
    | receive => exact .inr (hall rfl ▸ List.prefix_rfl)

end Sends

end EarlyBoot.Keyboard
