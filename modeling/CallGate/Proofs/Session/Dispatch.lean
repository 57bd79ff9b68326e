import CallGate.Proofs.Calls.Dispatch
import CallGate.Proofs.Session.Requests
import Mathlib.Data.List.Basic

/-! The routes into a capability, and what a session reports of them.

An entry point does what a lookup and a call on the current host do, and both do what the handler does,
between two messages. No other step of a session gives such messages, so the traces and errors of a run
are those of its dispatched calls. -/

namespace CallGate

namespace Request

/-- The capability that a request is dispatched to. The handler alone is no dispatch. -/
def dispatched? : Request → Option Capability
  | call .call c _ => some c
  | call .entry c _ => some c
  | _ => none

def announces (m : Machine) (r : Request) : List LogEntry :=
  match r.dispatched? with
  | some c => c.announce (c.fault? m.memory m.firstWord m.secondWord)
  | none => []

/-- A request adds to the journal, and of traces and errors only what is announced of it. -/
theorem announced_serve (m : Machine) (r : Request) :
    ∃ events : Array Event, (r.serve m).journal = m.services.journal ++ events ∧
      announced events.toList = r.announces m := by
  have same {services : Services} (kept : services.journal = m.services.journal) :
      ∃ events : Array Event, services.journal = m.services.journal ++ events ∧
        announced events.toList = [] := by
    refine ⟨#[], ?_, rfl⟩
    rw [kept, Array.append_empty]
  cases r with
  | nothing | addController | addDevice | addSink | take | install => exact same rfl
  | update i u =>
      apply same
      change (m.services.update i u).journal = _
      unfold Services.update
      split <;> rfl
  | setMode mode => exact (m.services.quiet_record rfl).journal
  | pollButtons i => exact (m.services.quiet_pollButtons i).journal
  | pollAxes i => exact (m.services.quiet_pollAxes i).journal
  | write sink data =>
      exact ⟨#[.textOffered sink data (m.services.write sink data).1], Array.push_eq_append, rfl⟩
  | puts host data size => exact (m.services.quiet_puts host data size).journal
  | call route c host =>
      have announced := route.announced_run c host m
      cases route <;> exact announced

end Request

namespace Session

variable {s : Session}

theorem step_of_call {x : Step} {route : Route} {c : Capability} {host : Host}
    (made : s.request x = .call route c host) :
    s.step x = s.answerOutcome (route.run c host s.machine) := by
  have resolved {α : Type} {entries : Array α} {n : Nat} {ask : α → Request}
      (made : resolve entries n ask = .call route c host) :
      ∃ a, entries[n]? = some a ∧ ask a = .call route c host :=
    resolve_cases (P := fun r => r = .call route c host →
      ∃ a, entries[n]? = some a ∧ ask a = .call route c host) Request.noConfusion
      (fun a named asked => ⟨a, named, asked⟩) made
  cases x with
  | memory | registers | convention => cases made
  | input x =>
      cases x with
      | setButtons | setLeft | setRight | pollButtons | pollAxes =>
          obtain ⟨a, -, asked⟩ := resolved made
          cases asked
      | _ => cases made
  | output x =>
      cases x with
      | write | take =>
          obtain ⟨a, -, asked⟩ := resolved made
          cases asked
      | _ => cases made
  | host x =>
      cases x with
      | add | current => cases made
      | _ =>
          obtain ⟨a, -, asked⟩ := resolved made
          cases asked
  | call x =>
      cases x with
      | call symbol n =>
          obtain ⟨h, named, asked⟩ := resolved made
          cases found : Capability.find? symbol with
          | none =>
              rw [found] at asked
              cases asked
          | some d =>
              rw [found] at asked
              cases asked
              simp only [step, callStep, withHost, named, found]
              rfl
      | handle d n =>
          obtain ⟨h, named, asked⟩ := resolved made
          cases asked
          simp only [step, callStep, withHost, named]
          rfl
      | enter d =>
          cases made
          rfl
      | _ => cases made

def fault? : Except Failure Reply → Option Fault
  | .error (.fault fault) => some fault
  | _ => none

def dispatch? (s : Session) (x : Step) : Option (Capability × Option Fault) :=
  (s.request x).dispatched?.map fun c => (c, fault? (s.step x).1)

def dispatches (s : Session) (steps : List Step) : List (Capability × Option Fault) :=
  along dispatch? s steps

def messages (s : Session) (steps : List Step) : List LogEntry := (run s steps).1.flatMap Report.logs

theorem fault_answerOutcome (s : Session) {o : Outcome} {fault : Option Fault}
    (result : o.1 = Capability.resultOf fault) : fault? (s.answerOutcome o).1 = fault := by
  rw [answerOutcome_fst result]
  cases fault <;> rfl

theorem announced_observe (s : Session) (x : Step) :
    (s.observe x).1.logs.filter LogEntry.isDispatch
      = (s.dispatch? x).toList.flatMap fun d => d.1.announce d.2 := by
  obtain ⟨events, journal, announces⟩ := Request.announced_serve s.machine (s.request x)
  have logs : (s.observe x).1.logs = events.toList.filterMap Event.log? := by
    rw [← services_step] at journal
    have before : s.machine.services.journal = s.services.journal := rfl
    simp only [observe, journal, before]
    simp [← Array.length_toList]
  rw [logs]
  change announced events.toList = _
  rw [announces, Request.announces, dispatch?]
  cases made : (s.request x).dispatched? with
  | none => rfl
  | some c =>
      have called : ∃ route host, s.request x = .call route c host := by
        unfold Request.dispatched? at made
        split at made
        · next same => cases made; exact ⟨_, _, same⟩
        · next same => cases made; exact ⟨_, _, same⟩
        · cases made
      obtain ⟨route, host, called⟩ := called
      have answered := fault_answerOutcome s (route.run_eq c host s.machine).1
      rw [← step_of_call called] at answered
      rw [answered]
      exact (List.append_nil _).symm

theorem announced_run (s : Session) (steps : List Step) :
    (messages s steps).filter LogEntry.isDispatch
      = (dispatches s steps).flatMap fun d => d.1.announce d.2 := by
  induction steps generalizing s with
  | nil => rfl
  | cons x steps ih =>
      calc
        (messages s (x :: steps)).filter LogEntry.isDispatch
            = (s.observe x).1.logs.filter LogEntry.isDispatch ++
                (messages (s.step x).2 steps).filter LogEntry.isDispatch := by
          exact List.filter_append ..
        _ = ((s.dispatch? x).toList ++ dispatches (s.step x).2 steps).flatMap
              fun d => d.1.announce d.2 := by
          rw [announced_observe, ih, List.flatMap_append]
        _ = (dispatches s (x :: steps)).flatMap fun d => d.1.announce d.2 := by
          rfl

theorem messages_at (level : Level) (dispatch : level = .trace ∨ level = .error) (s : Session)
    (steps : List Step) :
    (messages s steps).filter (·.level = level)
      = (dispatches s steps).flatMap fun d => (d.1.announce d.2).filter (·.level = level) := by
  have among : ∀ e : LogEntry, (decide (e.level = level) && e.isDispatch) = decide (e.level = level) := by
    intro e
    by_cases here : e.level = level
    · rcases dispatch with rfl | rfl <;> simp [LogEntry.isDispatch, here]
    · simp [here]
  calc
    (messages s steps).filter (·.level = level)
        = ((messages s steps).filter LogEntry.isDispatch).filter (·.level = level) := by
      simp only [List.filter_filter, among]
    _ = (dispatches s steps).flatMap fun d => (d.1.announce d.2).filter (·.level = level) := by
      rw [announced_run, List.filter_flatMap]

theorem traces_run (s : Session) (steps : List Step) :
    (messages s steps).filter (·.level = .trace)
      = (dispatches s steps).map fun d => .called d.1.symbol := by
  have one : ∀ d : Capability × Option Fault,
      (d.1.announce d.2).filter (·.level = .trace) = [.called d.1.symbol] := by
    rintro ⟨c, _ | fault⟩ <;> rfl
  rw [messages_at .trace (.inl rfl), List.map_eq_flatMap]
  simp only [one]

theorem errors_run (s : Session) (steps : List Step) :
    (messages s steps).filter (·.level = .error)
      = (dispatches s steps).filterMap fun d => d.2.map (.aborted d.1.symbol) := by
  have one : ∀ d : Capability × Option Fault,
      (d.1.announce d.2).filter (·.level = .error) = (d.2.map (.aborted d.1.symbol)).toList := by
    rintro ⟨c, _ | fault⟩ <;> rfl
  rw [messages_at .error (.inr rfl), List.filterMap_eq_flatMap_toList]
  simp only [one]

theorem observe_congr {t : Session} {x y : Step} (before : t.machine = s.machine)
    (reply : (t.step x).1 = (s.step y).1) (after : (t.step x).2.machine = (s.step y).2.machine)
    (replaces : x.replacesMemory = y.replacesMemory) : (t.observe x).1 = (s.observe y).1 := by
  simp only [observe, reply, replaces, services, registers, memory, before, after]
  rfl

theorem step_call (s : Session) (c : Capability) (n : Nat) :
    s.step (.call (.call c.symbol n)) = s.withHost n fun h => s.answerOutcome (c.call h s.machine) := by
  simp only [step, callStep, c.find?_symbol]

theorem observe_enter (s : Session) (c : Capability) :
    ∃ (k : Nat) (t : Session), s.step (.host .current) = (.ok (.number k), t) ∧
      t.machine = s.machine ∧
      (t.observe (.call (.call c.symbol k))).1 = (s.observe (.call (.enter c))).1 ∧
      (t.observe (.call (.call c.symbol k))).2.machine
        = (s.observe (.call (.enter c))).2.machine := by
  let t : Session := { s with hosts := s.hosts.push s.services.installed }
  have called : t.step (.call (.call c.symbol s.hosts.size))
      = t.answerOutcome (c.call s.services.installed s.machine) := by
    rw [step_call]
    simp only [withHost, t, Array.getElem?_push_size]
  have reply : (t.step (.call (.call c.symbol s.hosts.size))).1 = (s.step (.call (.enter c))).1 := by
    rw [called]
    change _ = (s.answerOutcome (c.call s.services.installed s.machine)).1
    unfold answerOutcome
    split <;> rfl
  have after : (t.step (.call (.call c.symbol s.hosts.size))).2.machine
      = (s.step (.call (.enter c))).2.machine := by
    rw [called, answerOutcome_snd]
    change _ = (s.answerOutcome (c.call s.services.installed s.machine)).2.machine
    rw [answerOutcome_snd]
  exact ⟨s.hosts.size, t, rfl, rfl, observe_congr rfl reply after rfl, after⟩

/-- The routes into a capability agree. A symbol is found exactly if it is the prefix with the name of a
capability, the table has it once, and the handler behind it decodes as many arguments as declared. An
entry point is a lookup with a call on the current host, and either is the handler on that host between
its two messages. So the traces of a run are those of its dispatched calls and the errors those of the
faults that they are answered by. -/
theorem dispatch_routes_agree (s : Session) (steps : List Step) :
    (∀ symbol c, Capability.find? symbol = some c ↔
      c ∈ Capability.all ∧ symbol = "recomp_" ++ c.name) ∧
    (Capability.all.map Capability.symbol).Nodup ∧
    (∀ (c : Capability) (host : Host) (m : Machine), ∃ arguments : Arguments c.params,
      O32.decode m.registers m.memory c.params = .ok arguments ∧
      arguments.toList.length = c.arity ∧
      c.handle host m = Capability.serve host m c arguments) ∧
    (∀ (c : Capability) (n : Nat), s.step (.call (.call ("recomp_" ++ c.name) n))
      = s.withHost n fun h => s.answerOutcome (c.call h s.machine)) ∧
    (∀ c : Capability, ∃ (k : Nat) (t : Session), s.step (.host .current) = (.ok (.number k), t) ∧
      t.machine = s.machine ∧
      (t.observe (.call (.call ("recomp_" ++ c.name) k))).1 = (s.observe (.call (.enter c))).1 ∧
      (t.observe (.call (.call ("recomp_" ++ c.name) k))).2.machine
        = (s.observe (.call (.enter c))).2.machine) ∧
    (∀ (c : Capability) (m : Machine), c.enter m = c.call m.services.installed m) ∧
    (∀ (c : Capability) (host : Host) (m : Machine), ∃ events, c.Encloses host m events) ∧
    (messages s steps).filter (·.level = .trace)
      = (dispatches s steps).map (fun d => .called d.1.symbol) ∧
    (messages s steps).filter (·.level = .error)
      = (dispatches s steps).filterMap (fun d => d.2.map (.aborted d.1.symbol)) ∧
    (messages s steps).countP (·.level = .trace) = (dispatches s steps).length ∧
    (messages s steps).countP (·.level = .error) = (dispatches s steps).countP (·.2.isSome) := by
  have traces := traces_run s steps
  have errors := errors_run s steps
  refine ⟨?_, by decide, Capability.handle_decodes, step_call s, observe_enter s, fun _ _ => rfl,
    Capability.call_encloses, traces, errors, ?_, ?_⟩
  · intro symbol c
    rw [Capability.find?_eq_some_iff]
    exact (and_iff_right c.mem_all).symm
  · rw [List.countP_eq_length_filter, traces, List.length_map]
  · rw [List.countP_eq_length_filter, errors, List.length_filterMap_eq_countP]
    simp only [Option.isSome_map]

end Session

end CallGate
