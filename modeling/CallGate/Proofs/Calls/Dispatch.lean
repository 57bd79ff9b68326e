import CallGate.Proofs.Services.Steady

/-! Dispatching a guest call.

The table has one entry for a symbol, and the handler of an entry decodes as many arguments as the entry
declares. Services add to their journal and never read it, so a dispatched call is its handler with one
message in front and, on a fault, one behind (`call_encloses`). -/

namespace CallGate

def LogEntry.isDispatch (e : LogEntry) : Bool := e.level = .trace ∨ e.level = .error

def announced (events : List Event) : List LogEntry :=
  (events.filterMap Event.log?).filter LogEntry.isDispatch

theorem announced_append (first later : List Event) :
    announced (first ++ later) = announced first ++ announced later := by
  rw [announced, List.filterMap_append, List.filter_append]
  rfl

namespace Services

def withJournal (s : Services) (journal : Array Event) : Services := { s with journal }

/-- From `s` on the operation adds `events` to the journal, whatever the journal holds. -/
def Adds (op : Services → Services) (s : Services) (events : Array Event) : Prop :=
  ∀ journal, op (s.withJournal journal) = (op s).withJournal (journal ++ events)

def Quiet (op : Services → Services) (s : Services) : Prop :=
  ∃ events, Adds op s events ∧ announced events.toList = []

variable {op next : Services → Services} {s : Services}

theorem Quiet.comp (first : Quiet op s) (later : Quiet next (op s)) :
    Quiet (fun s => next (op s)) s := by
  obtain ⟨early, adds, silent⟩ := first
  obtain ⟨late, addsMore, stillSilent⟩ := later
  refine ⟨early ++ late, ?_, ?_⟩
  · intro journal
    change next (op (s.withJournal journal)) = _
    rw [adds, addsMore, Array.append_assoc]
  · rw [Array.toList_append, announced_append, silent, stillSilent]
    rfl

theorem Quiet.journal (quiet : Quiet op s) :
    ∃ events : Array Event, (op s).journal = s.journal ++ events ∧ announced events.toList = [] := by
  obtain ⟨events, adds, silent⟩ := quiet
  exact ⟨events, congrArg Services.journal (adds s.journal), silent⟩

theorem quiet_id (s : Services) : Quiet (fun s => s) s := by
  refine ⟨#[], ?_, rfl⟩
  intro journal
  rw [Array.append_empty]

theorem quiet_record (s : Services) {e : Event} (silent : announced [e] = []) :
    Quiet (fun s => s.record e) s := by
  refine ⟨#[e], ?_, silent⟩
  intro journal
  simp only [record, withJournal, Array.push_eq_append]

theorem quiet_pollButtons (s : Services) (i : Nat) : Quiet (fun s => (s.pollButtons i).2) s := by
  refine ⟨#[.buttonsPolled i (s.pollButtons i).1], ?_, rfl⟩
  intro journal
  simp only [pollButtons, mode, record, withJournal, Array.push_eq_append]

theorem quiet_pollAxes (s : Services) (i : Nat) : Quiet (fun s => (s.pollAxes i).2) s := by
  refine ⟨#[.axesPolled i (s.pollAxes i).1], ?_, rfl⟩
  intro journal
  simp only [pollAxes, mode, record, withJournal, Array.push_eq_append]

theorem quiet_warn (s : Services) (data : ByteArray) (size : UInt32) :
    Quiet (fun s => s.warn data size) s := by
  unfold warn
  split
  · exact s.quiet_record rfl
  · exact s.quiet_id

theorem quiet_offer (s : Services) (sink : Nat) (text : ByteArray) :
    Quiet (fun s => s.offer sink text) s := by
  cases written : (s.sinks.get sink).write text with
  | mk result after =>
      cases result with
      | ok =>
          refine ⟨#[.textOffered sink text (.ok ())], ?_, rfl⟩
          intro journal
          simp only [offer, write, withJournal, written, record, Array.push_eq_append]
      | error reason =>
          refine ⟨#[.textOffered sink text (.error reason), .log (.dropped text.size reason)], ?_, rfl⟩
          intro journal
          simp only [offer, write, withJournal, written, log, record, Array.push_eq_append,
            Array.append_assoc]
          rfl

theorem quiet_puts (s : Services) (host : Host) (data : ByteArray) (size : UInt32) :
    Quiet (fun s => s.puts host data size) s := by
  simp only [puts_eq]
  split
  · exact s.quiet_warn data size
  · exact (s.quiet_warn data size).comp (quiet_offer _ _ _)

end Services

open Services

namespace Machine

def withJournal (m : Machine) (journal : Array Event) : Machine :=
  { m with services := m.services.withJournal journal }

end Machine

namespace Capability

theorem find?_eq_some_iff (symbol : String) (c : Capability) :
    find? symbol = some c ↔ symbol = "recomp_" ++ c.name := by
  constructor
  · intro found
    have named := List.find?_some found
    exact (of_decide_eq_true named).symm
  · rintro rfl
    cases c <;> decide

theorem find?_symbol (c : Capability) : find? c.symbol = some c := (find?_eq_some_iff _ c).mpr rfl

theorem types_toList {ts : List ArgType} (arguments : Arguments ts) :
    arguments.toList.map Sigma.fst = ts := by
  induction arguments with
  | nil => rfl
  | cons v rest ih => rw [Arguments.toList, List.map_cons, ih]

theorem handle_decodes (c : Capability) (host : Host) (m : Machine) :
    ∃ arguments : Arguments c.params,
      O32.decode m.registers m.memory c.params = .ok arguments ∧
      arguments.toList.length = c.arity ∧
      c.handle host m = serve host m c arguments := by
  have decoded : ∃ arguments, O32.decode m.registers m.memory c.params = .ok arguments := by
    cases c
    · exact ⟨.cons ⟨m.firstWord⟩ .nil, rfl⟩
    · exact ⟨.cons ⟨m.firstWord⟩ (.cons ⟨m.secondWord⟩ .nil), rfl⟩
    · exact ⟨.cons ⟨m.firstWord⟩ (.cons m.secondWord .nil), rfl⟩
  obtain ⟨arguments, done⟩ := decoded
  refine ⟨arguments, done, ?_, ?_⟩
  · rw [← List.length_map Sigma.fst, types_toList, length_params]
  · rw [handle, done]

theorem quiet_served (c : Capability) (host : Host) (m : Machine) :
    Quiet (fun services => c.served host { m with services }) m.services := by
  cases c with
  | itemInputs => exact m.services.quiet_pollButtons host.input
  | cameraInputs => exact m.services.quiet_pollAxes host.input
  | puts =>
      -- which branch is taken is told by registers and memory alone
      by_cases empty : m.secondWord = 0
      · have same : (fun services => puts.served host { m with services }) = fun s => s := by
          funext services
          exact if_pos empty
        rw [same]
        exact quiet_id _
      · cases found : m.memory.bytes m.firstWord m.secondWord with
        | ok data =>
            have same : (fun services => puts.served host { m with services })
                = fun s => s.puts host data m.secondWord := by
              funext services
              rw [Machine.firstWord, Machine.secondWord] at found
              simp only [served, Machine.firstWord, Machine.secondWord, found]
              exact if_neg empty
            rw [same]
            exact quiet_puts _ _ _ _
        | error fault =>
            have same : (fun services => puts.served host { m with services }) = fun s => s := by
              funext services
              rw [Machine.firstWord, Machine.secondWord] at found
              simp only [served, Machine.firstWord, Machine.secondWord, found, ite_self]
            rw [same]
            exact quiet_id _

/-- What a handler tells is added to the journal, and nothing else depends on the journal. -/
theorem handle_adds (c : Capability) (host : Host) (m : Machine) :
    ∃ events : Array Event, announced events.toList = [] ∧
      ∀ journal, c.handle host (m.withJournal journal)
        = ((c.handle host m).1, (c.handle host m).2.withJournal (journal ++ events)) := by
  obtain ⟨events, adds, silent⟩ := c.quiet_served host m
  refine ⟨events, silent, ?_⟩
  intro journal
  have edits : c.edits host (m.withJournal journal) = c.edits host m := by
    cases c <;> rfl
  have served : c.served host (m.withJournal journal)
      = (c.served host m).withJournal (journal ++ events) := adds journal
  rw [handle_eq, handle_eq, edits, served]
  rfl

def enclosed (c : Capability) (result : Except Fault Unit) (events : Array Event) : Array Event :=
  match result with
  | .ok _ => #[.log (.called c.symbol)] ++ events
  | .error fault => #[.log (.called c.symbol)] ++ events ++ #[.log (.aborted c.symbol fault)]

/-- A dispatched call is its handler, with one trace in front of what the handler tells and, exactly if
the handler faults, one error behind it. -/
structure Encloses (c : Capability) (host : Host) (m : Machine) (events : Array Event) : Prop where
  silent : announced events.toList = []
  told : (c.handle host m).2.services.journal = m.services.journal ++ events
  call : c.call host m = ((c.handle host m).1, (c.handle host m).2.withJournal
    (m.services.journal ++ c.enclosed (c.handle host m).1 events))

theorem call_encloses (c : Capability) (host : Host) (m : Machine) :
    ∃ events, c.Encloses host m events := by
  obtain ⟨events, silent, adds⟩ := c.handle_adds host m
  refine ⟨events, silent, ?_, ?_⟩
  · exact congrArg (fun o => o.2.services.journal) (adds m.services.journal)
  · have called : c.handle host (m.log (.called c.symbol))
        = ((c.handle host m).1, (c.handle host m).2.withJournal
          (m.services.journal ++ #[.log (.called c.symbol)] ++ events)) := by
      rw [← Array.push_eq_append]
      exact adds _
    rw [Capability.call, called]
    cases (c.handle host m).1 with
    | ok => simp only [enclosed, Array.append_assoc]
    | error fault =>
        simp only [enclosed, Machine.log, Services.log, record, Machine.withJournal, withJournal,
          Array.push_eq_append, Array.append_assoc]

def announce (c : Capability) (fault : Option Fault) : List LogEntry :=
  .called c.symbol :: (fault.map (.aborted c.symbol)).toList

theorem announced_enclosed (c : Capability) (fault : Option Fault) {events : Array Event}
    (silent : announced events.toList = []) :
    announced (c.enclosed (resultOf fault) events).toList = c.announce fault := by
  have front : announced [.log (.called c.symbol)] = [.called c.symbol] := rfl
  cases fault with
  | none =>
      rw [resultOf, enclosed, Array.toList_append, announced_append, silent, front]
      rfl
  | some fault =>
      rw [resultOf, enclosed, Array.toList_append, Array.toList_append, announced_append,
        announced_append, silent, front]
      rfl

end Capability

namespace Route

/-- What a call by a route adds to the journal around the events of its handler. -/
def told (c : Capability) (result : Except Fault Unit) (events : Array Event) : Route → Array Event
  | handler => events
  | call | entry => c.enclosed result events

def announce (c : Capability) (fault : Option Fault) : Route → List LogEntry
  | handler => []
  | call | entry => c.announce fault

theorem announced_told (route : Route) (c : Capability) (fault : Option Fault) {events : Array Event}
    (silent : announced events.toList = []) :
    announced (route.told c (Capability.resultOf fault) events).toList = route.announce c fault := by
  cases route with
  | handler => exact silent
  | call | entry => exact c.announced_enclosed fault silent

theorem run_told (route : Route) (c : Capability) (host : Host) (m : Machine) :
    ∃ events : Array Event, announced events.toList = [] ∧
      (c.handle (route.server host m) m).2.services.journal = m.services.journal ++ events ∧
      route.run c host m = ((c.handle (route.server host m) m).1,
        (c.handle (route.server host m) m).2.withJournal
          (m.services.journal ++ route.told c (c.handle (route.server host m) m).1 events)) := by
  obtain ⟨events, silent, journal, called⟩ := c.call_encloses (route.server host m) m
  refine ⟨events, silent, journal, ?_⟩
  cases route with
  | handler =>
      rw [told, ← journal]
      rfl
  | call | entry => exact called

theorem announced_run (route : Route) (c : Capability) (host : Host) (m : Machine) :
    ∃ events : Array Event, (route.run c host m).2.services.journal = m.services.journal ++ events ∧
      announced events.toList = route.announce c (c.fault? m.memory m.firstWord m.secondWord) := by
  obtain ⟨events, silent, -, whole⟩ := route.run_told c host m
  have result := (route.run_eq c host m).1
  rw [whole] at result ⊢
  refine ⟨_, rfl, ?_⟩
  rw [result]
  exact route.announced_told c _ silent

end Route

end CallGate
