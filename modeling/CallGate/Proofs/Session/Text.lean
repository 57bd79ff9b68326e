import CallGate.Proofs.Calls.Text
import CallGate.Proofs.Session.Parts

/-! Guest text on its way into a sink.

A step that emits text appends it to what the sink keeps, whatever way the text takes there, and a step
that takes the text hands over all of it. So over a whole session what was taken from a sink, followed
by what it keeps, is what was sent into it. -/

namespace CallGate

open Services

variable {i : Nat} {text : List UInt8}

namespace Session

def guestCall? (s : Session) : CallStep → Option (Route × Capability × Host)
  | .call symbol host =>
    match s.hosts[host]?, Capability.find? symbol with
    | some h, some c => some (.call, c, h)
    | _, _ => none
  | .handle c host => s.hosts[host]?.map fun h => (.handler, c, h)
  | .enter c => some (.entry, c, s.services.installed)
  | _ => none

def emission? (s : Session) : Step → Option (Nat × List UInt8)
  | .output (.write sink data) => s.sinks[sink]?.map fun i => (i, data.data.toList)
  | .host (.write host data) => s.hosts[host]?.map fun h => (h.sink, data.data.toList)
  | .host (.puts host data size) =>
    s.hosts[host]?.map fun h => (h.sink, data.data.toList.take size.toNat)
  | .call (.nativePuts data size) =>
    some (s.services.installed.sink, data.data.toList.take size.toNat)
  | .call step =>
    match s.guestCall? step with
    | some (_, c, host) =>
      if c = .puts ∧ (s.callStep step).1.isOk then some (host.sink, s.machine.namedText) else none
    | none => none
  | _ => none

def sent (s : Session) (i : Nat) (x : Step) : List UInt8 :=
  match s.emission? x with
  | some (sink, text) => portion i sink text
  | none => []

def drained? (s : Session) : Step → Option Nat
  | .output (.take sink) => s.sinks[sink]?
  | .output .takeStandard => some Host.standard.sink
  | _ => none

def taken (s : Session) (i : Nat) (x : Step) : List UInt8 :=
  match s.drained? x, (s.step x).1 with
  | some sink, .ok (.bytes data) => portion i sink data.data.toList
  | _, _ => []

def sentAll (i : Nat) : Session → List Step → List UInt8
  | _, [] => []
  | s, x :: steps => s.sent i x ++ sentAll i (s.step x).2 steps

def takenAll (i : Nat) : Session → List Step → List UInt8
  | _, [] => []
  | s, x :: steps => s.taken i x ++ takenAll i (s.step x).2 steps

variable {s : Session}

theorem inputStep_sinks (s : Session) (x : InputStep) :
    (s.inputStep x).2.services.sinks = s.services.sinks := by
  apply inputStep_cases (P := fun a => a.2.services.sinks = s.services.sinks)
  · intro source
    rfl
  · intro services reply same _
    exact same
  · intro reply
    rfl

/-- A step keeps the balance of the sink: what it hands over, followed by what is kept then, is what was
kept before, followed by what it emits. -/
def Balances (i : Nat) (text : List UInt8) (s : Session) (x : Step) : Prop :=
  ∃ left, Capturing i left (s.step x).2.services ∧ s.taken i x ++ left = text ++ s.sent i x

theorem balances_of_emission {x : Step} {sink : Nat} {emitted : List UInt8}
    (undrained : s.drained? x = none) (emits : s.emission? x = some (sink, emitted))
    (capturing : Capturing i (text ++ portion i sink emitted) (s.step x).2.services) :
    Balances i text s x := by
  refine ⟨_, capturing, ?_⟩
  simp only [taken, sent, undrained, emits, List.nil_append]

theorem balances_of_silence {x : Step} (undrained : s.drained? x = none)
    (silent : s.emission? x = none) (capturing : Capturing i text (s.step x).2.services) :
    Balances i text s x := by
  refine ⟨text, capturing, ?_⟩
  simp only [taken, sent, undrained, silent, List.nil_append, List.append_nil]

theorem balances_takeText (capturing : Capturing i text s.services) {x : Step} {sink : Nat}
    (drains : s.drained? x = some sink) (silent : s.emission? x = none)
    (takes : s.step x = s.takeText sink) : Balances i text s x := by
  obtain ⟨left, after, whole⟩ := capturing.take sink
  refine ⟨left, ?_, ?_⟩
  · rw [takes]
    exact after
  · simp only [taken, sent, drains, takes, silent, List.append_nil]
    exact whole

theorem balances_outputStep (capturing : Capturing i text s.services) (x : OutputStep) :
    Balances i text s (.output x) := by
  cases x with
  | addCapture => exact balances_of_silence rfl rfl (capturing.addSink _)
  | addStandard => exact balances_of_silence rfl rfl capturing
  | addFailing count reason => exact balances_of_silence rfl rfl (capturing.addSink _)
  | write sink data =>
      cases named : s.sinks[sink]? with
      | none =>
          apply balances_of_silence rfl
          · simp only [emission?, named, Option.map_none]
          · simp only [step, outputStep, withSink, named]
            exact capturing
      | some j =>
          have emits : s.emission? (.output (.write sink data)) = some (j, data.data.toList) := by
            simp only [emission?, named, Option.map_some]
          apply balances_of_emission rfl emits
          simp only [step, outputStep, withSink, named, offerText_snd]
          exact capturing.write j data
  | contents sink =>
      apply balances_of_silence rfl rfl
      exact withSink_cases (P := fun a => Capturing i text a.2.services) (fun _ => capturing)
        fun _ _ => capturing
  | take sink =>
      cases named : s.sinks[sink]? with
      | none =>
          apply balances_of_silence (x := .output (.take sink)) named rfl
          simp only [step, outputStep, withSink, named]
          exact capturing
      | some j =>
          apply balances_takeText (x := .output (.take sink)) capturing named rfl
          simp only [step, outputStep, withSink, named]
  | takeStandard => exact balances_takeText capturing rfl rfl rfl

theorem balances_hostStep (capturing : Capturing i text s.services) (x : HostStep) :
    Balances i text s (.host x) := by
  have silent {x : HostStep} (silent : s.emission? (.host x) = none)
      (same : (s.hostStep x).2.services.sinks = s.services.sinks) : Balances i text s (.host x) :=
    balances_of_silence rfl silent (capturing.congr same)
  have quiet (host : Nat) (use : Host → Answer)
      (used : ∀ h, (use h).2.services.sinks = s.services.sinks) :
      (s.withHost host use).2.services.sinks = s.services.sinks :=
    withHost_cases (P := fun a => a.2.services.sinks = s.services.sinks) (fun _ => rfl)
      fun h _ => used h
  cases x with
  | add input sink =>
      apply silent rfl
      apply withInput_cases (P := fun a => a.2.services.sinks = s.services.sinks) (fun _ => rfl)
      intro j
      apply withSink_cases (P := fun a => a.2.services.sinks = s.services.sinks) (fun _ => rfl)
      intro o _
      rfl
  | pollButtons | pollAxes | itemInputs | cameraInputs | install =>
      exact silent rfl (quiet _ _ fun _ => rfl)
  | current => exact silent rfl rfl
  | write host data =>
      cases named : s.hosts[host]? with
      | none =>
          apply silent
          · simp only [emission?, named, Option.map_none]
          · simp only [hostStep, withHost, named]
            rfl
      | some h =>
          have emits : s.emission? (.host (.write host data)) = some (h.sink, data.data.toList) := by
            simp only [emission?, named, Option.map_some]
          apply balances_of_emission rfl emits
          simp only [step, hostStep, withHost, named, offerText_snd]
          exact capturing.write h.sink data
  | puts host data size =>
      cases named : s.hosts[host]? with
      | none =>
          apply silent
          · simp only [emission?, named, Option.map_none]
          · simp only [hostStep, withHost, named]
            rfl
      | some h =>
          have emits : s.emission? (.host (.puts host data size))
              = some (h.sink, data.data.toList.take size.toNat) := by
            simp only [emission?, named, Option.map_some]
          apply balances_of_emission rfl emits
          simp only [step, hostStep, withHost, named, answer_snd, services_withServices]
          exact capturing.puts h data size

theorem callStep_of_guestCall {x : CallStep} {route : Route} {c : Capability} {host : Host}
    (calls : s.guestCall? x = some (route, c, host)) :
    s.callStep x = s.answerOutcome (route.run c host s.machine) ∧
      route.server host s.machine = host := by
  cases x with
  | call symbol n =>
      cases named : s.hosts[n]? with
      | none => simp [guestCall?, named] at calls
      | some h =>
          cases found : Capability.find? symbol with
          | none => simp [guestCall?, named, found] at calls
          | some d =>
              simp only [guestCall?, named, found, Option.some.injEq, Prod.mk.injEq] at calls
              obtain ⟨rfl, rfl, rfl⟩ := calls
              simp only [callStep, withHost, named, found]
              exact ⟨rfl, rfl⟩
  | handle d n =>
      cases named : s.hosts[n]? with
      | none => simp [guestCall?, named] at calls
      | some h =>
          simp only [guestCall?, named, Option.map_some, Option.some.injEq, Prod.mk.injEq] at calls
          obtain ⟨rfl, rfl, rfl⟩ := calls
          simp only [callStep, withHost, named]
          exact ⟨rfl, rfl⟩
  | enter d =>
      simp only [guestCall?, Option.some.injEq, Prod.mk.injEq] at calls
      obtain ⟨rfl, rfl, rfl⟩ := calls
      exact ⟨rfl, rfl⟩
  | _ => cases calls

theorem balances_guestCall (capturing : Capturing i text s.services) {x : CallStep} {route : Route}
    {c : Capability} {host : Host} (calls : s.guestCall? x = some (route, c, host))
    (emits : s.emission? (.call x) = if c = .puts ∧ (s.callStep x).1.isOk
      then some (host.sink, s.machine.namedText) else none) : Balances i text s (.call x) := by
  obtain ⟨answer, served⟩ := callStep_of_guestCall calls
  have after := route.capturing_run capturing c host
  have services : (s.step (.call x)).2.services = (route.run c host s.machine).2.services := by
    change (s.callStep x).2.services = _
    rw [answer, answerOutcome_snd]
    rfl
  have returned : (s.callStep x).1.isOk = true ↔
      c.fault? s.machine.memory s.machine.firstWord s.machine.secondWord = none := by
    rw [answer, isOk_answerOutcome]
    exact route.isOk_run c host s.machine
  rw [served, ← services] at after
  simp only [returned] at emits
  by_cases spoken : c = .puts ∧
      c.fault? s.machine.memory s.machine.firstWord s.machine.secondWord = none
  · rw [if_pos spoken] at emits
    apply balances_of_emission rfl emits
    rwa [Capability.text, if_pos spoken] at after
  · rw [if_neg spoken] at emits
    apply balances_of_silence rfl emits
    rwa [Capability.text, if_neg spoken, portion, ite_self, List.append_nil] at after

theorem balances_callStep (capturing : Capturing i text s.services) (x : CallStep) :
    Balances i text s (.call x) := by
  cases x with
  | capabilities => exact balances_of_silence rfl rfl capturing
  | find symbol => exact balances_of_silence rfl rfl capturing
  | nativeItemInputs => exact balances_of_silence rfl rfl (capturing.congr rfl)
  | nativeCameraInputs => exact balances_of_silence rfl rfl (capturing.congr rfl)
  | nativePuts data size =>
      apply balances_of_emission rfl rfl
      simp only [step, callStep, answer_snd, services_withServices]
      exact capturing.puts s.services.installed data size
  | enter c => exact balances_guestCall capturing rfl rfl
  | handle c n =>
      cases named : s.hosts[n]? with
      | some h =>
          have calls : s.guestCall? (.handle c n) = some (.handler, c, h) := by
            simp only [guestCall?, named, Option.map_some]
          apply balances_guestCall capturing calls
          simp only [emission?, calls]
      | none =>
          apply balances_of_silence rfl
          · simp only [emission?, guestCall?, named, Option.map_none]
          · simp only [step, callStep, withHost, named]
            exact capturing
  | call symbol n =>
      cases calls : s.guestCall? (.call symbol n) with
      | some made =>
          apply balances_guestCall capturing calls
          simp only [emission?, calls]
      | none =>
          apply balances_of_silence rfl
          · simp only [emission?, calls]
          · cases named : s.hosts[n]? with
            | none =>
                simp only [step, callStep, withHost, named]
                exact capturing
            | some h =>
                cases found : Capability.find? symbol with
                | none =>
                    simp only [step, callStep, withHost, named, found]
                    exact capturing
                | some c => simp [guestCall?, named, found] at calls

theorem balances_step (capturing : Capturing i text s.services) (x : Step) :
    Balances i text s x := by
  have quiet {x : Step} (undrained : s.drained? x = none) (silent : s.emission? x = none)
      (same : (s.step x).2.services = s.services) : Balances i text s x :=
    balances_of_silence undrained silent (capturing.congr (congrArg Services.sinks same))
  cases x with
  | memory x => exact quiet rfl rfl (guestOnly_memoryStep s x).services
  | registers x => exact quiet rfl rfl (guestOnly_registerStep s x).services
  | convention x => exact quiet rfl rfl (guestOnly_conventionStep s x).services
  | input x => exact balances_of_silence rfl rfl (capturing.congr (inputStep_sinks s x))
  | output x => exact balances_outputStep capturing x
  | host x => exact balances_hostStep capturing x
  | call x => exact balances_callStep capturing x

theorem balances_run (capturing : Capturing i text s.services) (steps : List Step) :
    ∃ left, Capturing i left (run s steps).2.services ∧
      takenAll i s steps ++ left = text ++ sentAll i s steps := by
  -- what a step leaves in the sink is what the next one finds there
  induction steps generalizing s text with
  | nil => exact ⟨text, capturing, (List.append_nil _).symm⟩
  | cons x steps ih =>
      obtain ⟨kept, after, first⟩ := balances_step capturing x
      obtain ⟨left, done, rest⟩ := ih after
      refine ⟨left, done, ?_⟩
      calc
        takenAll i s (x :: steps) ++ left = s.taken i x ++ (takenAll i (s.step x).2 steps ++ left) :=
          List.append_assoc _ _ _
        _ = s.taken i x ++ kept ++ sentAll i (s.step x).2 steps := by
          rw [rest, List.append_assoc]
        _ = text ++ sentAll i s (x :: steps) := by
          rw [first, sentAll, List.append_assoc]

/-- No text of the guest is lost, repeated, reordered or made up. Whatever a session does, and however
many hosts share the sink, what was taken from a sink that refuses nothing, followed by its contents, is
what the sink kept at the start, followed by the text of each step that emitted into it. -/
theorem text_conserved (s : Session) {sink : Nat} (named : s.sinks[sink]? = some i)
    (capturing : Capturing i text s.services) (steps : List Step) :
    ∃ contents : ByteArray,
      ((run s steps).2.step (.output (.contents sink))).1 = .ok (.bytes contents) ∧
      takenAll i s steps ++ contents.data.toList = text ++ sentAll i s steps := by
  obtain ⟨left, after, whole⟩ := balances_run capturing steps
  have known := (keeps_run s steps).sinks sink i named
  refine ⟨((run s steps).2.services.sinks.get i).kept, ?_, ?_⟩
  · simp only [step, outputStep, withSink, known]
    rfl
  · rw [after.kept]
    exact whole

/-- Two bytes of three through the native form, a text in memory through a handler, a take, a text out
of bounds, and a direct write. -/
def mixedText : List Step :=
  [.memory (.attach 0 8), .memory (.overwrite 0 ⟨#[104, 105, 33]⟩),
    .host (.puts 1 ⟨#[97, 98, 99]⟩ 2), .registers (.setWord 5 3), .call (.handle .puts 1),
    .output (.take 0), .registers (.setWord 5 9), .call (.handle .puts 1),
    .output (.write 0 ⟨#[7]⟩)]

theorem text_conserved_mixedText :
    start.sinks[0]? = some 1 ∧ Capturing 1 [] start.services ∧
    ∃ contents : ByteArray,
      ((run start mixedText).2.step (.output (.contents 0))).1 = .ok (.bytes contents) ∧
      takenAll 1 start mixedText = [97, 98, 104, 105, 33] ∧
      takenAll 1 start mixedText ++ contents.data.toList = [97, 98, 104, 105, 33, 7] := by
  have named : start.sinks[0]? = some 1 := rfl
  have capturing : Capturing 1 [] start.services := ⟨by decide, fun _ => rfl, rfl⟩
  obtain ⟨contents, answer, whole⟩ := text_conserved start named capturing mixedText
  have emitted : sentAll 1 start mixedText = [97, 98, 104, 105, 33, 7] := by decide
  rw [emitted] at whole
  exact ⟨named, capturing, contents, answer, by decide, whole⟩

end Session

end CallGate
