import CallGate.Proofs.Session.Alike

/-! What a sink refuses is not to be seen.

Every step takes two sessions that differ in their sinks to sessions that do, and answers the same in
both unless it asks a sink itself (`agree_step`). So over a whole run the one trace of a refusal is the
warning that a text was dropped. -/

namespace CallGate

def LogEntry.isDropped : LogEntry → Bool
  | dropped _ _ => true
  | _ => false

theorem Event.logs_sinkless (events : List Event) :
    (events.filterMap log?).filter (fun e => !e.isDropped)
      = (events.filterMap sinkless?).filterMap log? := by
  rw [List.filter_filterMap, List.filterMap_filterMap]
  congr 1
  funext e
  cases e with
  | log entry => cases entry <;> rfl
  | _ => rfl

namespace Session

def Step.asksSink : Step → Bool
  | output (.write _ _) => true
  | output (.contents _) => true
  | output (.take _) => true
  | output .takeStandard => true
  | host (.write _ _) => true
  | _ => false

variable {s t : Session} {asked : Bool}

theorem agree_memoryStep (alike : Alike s t) (x : MemoryStep) :
    Agree asked (s.memoryStep x) (t.memoryStep x) := by
  have same : s.memory = t.memory := alike.machine.memory
  cases x with
  | reserve base size scarce => exact alike.answerReserved _
  | reserveKseg0 =>
      rw [memoryStep, memoryStep]
      exact alike.answerReserved _
  | attach base size => exact ⟨fun _ => rfl, alike.withMemory _⟩
  | overwrite | fill | writeWord | write =>
      rw [memoryStep, same]
      exact alike.answerWritten _ _
  | _ =>
      rw [memoryStep, same]
      exact alike.answerFound _

theorem agree_registerStep (alike : Alike s t) (x : RegisterStep) :
    Agree asked (s.registerStep x) (t.registerStep x) := by
  have same : s.registers = t.registers := alike.machine.registers
  have read (index : Nat) (reply : Reg → Reply) :
      Agree asked (s.withRegister index fun r => s.answer (reply r))
        (t.withRegister index fun r => t.answer (reply r)) :=
    alike.withRegister index fun r => alike.answer (reply r)
  have stored (registers : Registers) :
      Agree asked ((s.withRegisters registers).answer .done)
        ((t.withRegisters registers).answer .done) := (alike.withRegisters registers).answer .done
  have wrote (index : Nat) (registers : Reg → Registers) :
      Agree asked (s.withRegister index fun r => (s.withRegisters (registers r)).answer .done)
        (t.withRegister index fun r => (t.withRegisters (registers r)).answer .done) :=
    alike.withRegister index fun r => stored (registers r)
  cases x with
  | get | word | single =>
      rw [registerStep, same]
      exact read _ _
  | set | setWord | setSingle | pokeGpr | pokeFpr =>
      rw [registerStep, same]
      exact wrote _ _
  | pokeHi | pokeLo =>
      rw [registerStep, same]
      exact stored _
  | reset => exact stored {}
  | save =>
      have saved : Alike { s with saved := s.registers } { t with saved := t.registers } :=
        ⟨alike.machine, same, alike.inputs, alike.sinks, alike.hosts, alike.installed⟩
      exact saved.answer .done
  | restore =>
      rw [registerStep, alike.saved]
      exact stored _
  | sameAsSaved =>
      simp only [registerStep, same, alike.saved]
      exact alike.answer _

theorem agree_conventionStep (alike : Alike s t) (x : ConventionStep) :
    Agree asked (s.conventionStep x) (t.conventionStep x) := by
  have registers : s.registers = t.registers := alike.machine.registers
  have memory : s.memory = t.memory := alike.machine.memory
  cases x with
  | store value =>
      rw [conventionStep, registers]
      exact (alike.withRegisters _).answer .done
  | decodeEach types =>
      rw [conventionStep, registers, memory]
      exact alike.answer _
  | decode types =>
      rw [conventionStep, registers, memory]
      exact alike.answerFound _
  | decodeScript types answers => exact alike.answer _

theorem agree_inputStep (alike : Alike s t) (x : InputStep) :
    Agree asked (s.inputStep x) (t.inputStep x) := by
  have services := alike.machine.services
  have updated (input : Nat) (update : Controller → Controller) :
      Agree asked
        (s.withController input fun i c =>
          (s.withServices (s.services.setController i (update c))).answer .done)
        (t.withController input fun i c =>
          (t.withServices (t.services.setController i (update c))).answer .done) := by
    apply alike.withController input
    intro i c
    exact (alike.withServices (services.setController i (update c)) rfl rfl).answer .done
  cases x with
  | addController => exact alike.addInput _
  | addDevice held axes => exact alike.addInput _
  | setButtons input held => exact updated input (·.setButtons held)
  | setLeft input axes => exact updated input (·.setLeft axes)
  | setRight input axes => exact updated input (·.setRight axes)
  | left input => exact alike.withController input fun _ c => alike.answer (.axes c.left)
  | right input => exact alike.withController input fun _ c => alike.answer (.axes c.right)
  | pollButtons input => exact alike.withInput input fun _ => alike.answerButtons rfl
  | pollAxes input => exact alike.withInput input fun _ => alike.answerAxes rfl
  | mode =>
      have same : s.services.mode = t.services.mode := services.mode
      rw [inputStep, same]
      exact alike.answer _
  | setMode mode => exact (alike.withServices (services.setMode mode) rfl rfl).answer .done
  | modeOfRaw value => exact alike.answer _

theorem agree_outputStep (alike : Alike s t) (x : OutputStep) :
    Agree (Step.output x).asksSink (s.outputStep x) (t.outputStep x) := by
  cases x with
  | addCapture => exact alike.addSink _ _
  | addStandard => exact alike.nameSink _ _
  | addFailing count reason => exact alike.addSink _ _
  | write sink data => exact alike.withSink sink fun i j => alike.offerText i j data
  | contents sink => exact alike.withSink sink fun _ _ => ⟨nofun, alike⟩
  | take sink => exact alike.withSink sink fun i j => alike.takeText i j
  | takeStandard => exact alike.takeText _ _

theorem agree_hostStep (alike : Alike s t) (x : HostStep) :
    Agree (Step.host x).asksSink (s.hostStep x) (t.hostStep x) := by
  cases x with
  | add input sink =>
      exact alike.withInput input fun _ => alike.withSink sink fun _ _ => alike.addHost rfl
  | pollButtons host => exact alike.withHost host fun _ _ _ _ same => alike.answerButtons same
  | pollAxes host => exact alike.withHost host fun _ _ _ _ same => alike.answerAxes same
  | write host data =>
      exact alike.withHost host fun h k _ _ _ => alike.offerText h.sink k.sink data
  | itemInputs host => exact alike.withHost host fun _ _ _ _ same => alike.answerButtons same
  | cameraInputs host => exact alike.withHost host fun _ _ _ _ same => alike.answerAxes same
  | puts host data size => exact alike.withHost host fun h k _ _ _ => alike.puts h k data size
  | install host => exact alike.withHost host fun _ _ named other _ => alike.install named other
  | current => exact alike.addHost alike.installed_input

theorem agree_callStep (alike : Alike s t) (x : CallStep) :
    Agree asked (s.callStep x) (t.callStep x) := by
  cases x with
  | capabilities => exact alike.answer _
  | find symbol => exact alike.answer _
  | call symbol host =>
      apply alike.withHost host
      intro h k named other same
      split
      · exact alike.serve .call _ h k same
      · exact alike.refuse _
  | handle c host => exact alike.withHost host fun h k _ _ same => alike.serve .handler c h k same
  | enter c =>
      exact alike.serve .entry c s.services.installed t.services.installed alike.installed_input
  | nativeItemInputs => exact alike.answerButtons alike.installed_input
  | nativeCameraInputs => exact alike.answerAxes alike.installed_input
  | nativePuts data size => exact alike.puts _ _ data size

theorem agree_step (alike : Alike s t) (x : Step) :
    Agree x.asksSink (s.step x) (t.step x) := by
  cases x with
  | memory x => exact agree_memoryStep alike x
  | registers x => exact agree_registerStep alike x
  | convention x => exact agree_conventionStep alike x
  | input x => exact agree_inputStep alike x
  | output x => exact agree_outputStep alike x
  | host x => exact agree_hostStep alike x
  | call x => exact agree_callStep alike x

/-- Two reports that differ at most in the warnings of dropped text and, if a sink was asked, in what it
answered. -/
structure Report.Alike (asked : Bool) (r q : Report) : Prop where
  reply : asked = false → r.reply = q.reply
  logs : r.logs.filter (fun e => !e.isDropped) = q.logs.filter (fun e => !e.isDropped)
  registers : r.registers = q.registers
  runs : r.runs = q.runs

theorem told_observe (s : Session) (x : Step) :
    ∃ events : List Event, (s.observe x).1.logs = events.filterMap Event.log? ∧
      (s.step x).2.services.told = s.services.told ++ events.filterMap Event.sinkless? := by
  obtain ⟨events, added⟩ := (keeps_step s x).journal
  have size : (s.step x).2.services.journal.size = s.services.journal.size + events.length := by
    rw [← Array.length_toList, ← added, List.length_append, Array.length_toList]
  refine ⟨events, ?_, ?_⟩
  · simp only [observe]
    rw [Array.toList_extract, ← added]
    simp [size]
  · rw [Services.told, ← added, List.filterMap_append]
    rfl

theorem alike_observe (alike : Alike s t) (x : Step) :
    Report.Alike x.asksSink (s.observe x).1 (t.observe x).1 := by
  obtain ⟨reply, after⟩ := agree_step alike x
  have memory : s.memory = t.memory := alike.machine.memory
  have registers : s.registers = t.registers := alike.machine.registers
  have memoryAfter : (s.step x).2.memory = (t.step x).2.memory := after.machine.memory
  have registersAfter : (s.step x).2.registers = (t.step x).2.registers := after.machine.registers
  refine ⟨reply, ?_, ?_, ?_⟩
  · obtain ⟨events, logs, told⟩ := told_observe s x
    obtain ⟨others, otherLogs, otherTold⟩ := told_observe t x
    have same : events.filterMap Event.sinkless? = others.filterMap Event.sinkless? := by
      have whole : s.services.told ++ events.filterMap Event.sinkless?
          = t.services.told ++ others.filterMap Event.sinkless? := by
        rw [← told, ← otherTold]
        exact after.machine.services.told
      have before : s.services.told = t.services.told := alike.machine.services.told
      rw [before] at whole
      exact List.append_cancel_left whole
    rw [logs, otherLogs, Event.logs_sinkless, Event.logs_sinkless, same]
  · simp only [observe, registers, registersAfter]
  · simp only [observe, memory, memoryAfter]

theorem alike_run (alike : Alike s t) (steps : List Step) :
    Alike (run s steps).2 (run t steps).2 := by
  induction steps generalizing s t with
  | nil => exact alike
  | cons x steps ih => exact ih (agree_step alike x).after

theorem alike_reports (alike : Alike s t) {steps : List Step} {n : Nat} {x : Step}
    (made : steps[n]? = some x) :
    ∃ r q, (run s steps).1[n]? = some r ∧ (run t steps).1[n]? = some q ∧
      Report.Alike x.asksSink r q := by
  induction steps generalizing s t n with
  | nil => cases made
  | cons y steps ih =>
      cases n with
      | zero =>
          obtain rfl : y = x := Option.some.inj made
          exact ⟨_, _, rfl, rfl, alike_observe alike y⟩
      | succ n => exact ih (agree_step alike y).after made

/-- Sink failures are invisible to the guest. Two runs of the same steps, from sessions that are the same
but for their sinks, are the same but for their sinks after every step: guest image, register file,
input states, camera mode and installed host are the same. Every step is answered the same in both,
unless it asks a sink directly, and logs the same but for warnings of dropped text. -/
theorem sink_failures_invisible (alike : Alike s t) (steps : List Step) (n : Nat) :
    Alike (run s (steps.take n)).2 (run t (steps.take n)).2 ∧
    ∀ x, steps[n]? = some x → ∃ r q,
      (run s steps).1[n]? = some r ∧ (run t steps).1[n]? = some q ∧ Report.Alike x.asksSink r q :=
  ⟨alike_run alike _, fun _ made => alike_reports alike made⟩

/-- Behind the standard host is a closed pipe, and behind the other a disk with room for one text. -/
def failingSinks : Table Sink :=
  ⟨#[Sink.failingAfter 0 "broken pipe", Sink.failingAfter 1 "no space left"]⟩

/-- A text of three bytes, to the second host twice and to the installed one; then a text out of
bounds. -/
def chatter : List Step :=
  [.memory (.attach 0 8), .memory (.overwrite 0 ⟨#[104, 105, 33]⟩), .registers (.setWord 5 3),
    .call (.handle .puts 1), .call (.handle .puts 1), .call (.enter .puts),
    .registers (.setWord 5 9), .call (.handle .puts 1)]

theorem sink_failures_invisible_chatter :
    Alike start (start.withServices { start.services with sinks := failingSinks }) ∧
    ∃ r q,
      (run start chatter).1[4]? = some r ∧
      (run (start.withServices { start.services with sinks := failingSinks }) chatter).1[4]? = some q ∧
      r.reply = q.reply ∧ r.logs = [] ∧ q.logs = [.dropped 3 "no space left"] := by
  have alike := Alike.ofSinks start failingSinks
  obtain ⟨-, answered⟩ := sink_failures_invisible alike chatter 4
  obtain ⟨r, q, first, second, same⟩ := answered _ rfl
  have kept : ((run start chatter).1[4]?).map Report.logs = some [] := by decide +kernel
  have dropped : ((run (start.withServices { start.services with sinks := failingSinks })
      chatter).1[4]?).map Report.logs = some [.dropped 3 "no space left"] := by decide +kernel
  rw [first] at kept
  rw [second] at dropped
  exact ⟨alike, r, q, first, second, same.reply rfl, Option.some.inj kept, Option.some.inj dropped⟩

end Session

end CallGate
