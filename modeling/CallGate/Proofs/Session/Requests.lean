import CallGate.Proofs.Input.Controller
import CallGate.Proofs.Session.Parts

/-! What the steps of a session ask of the services.

A step comes to one request, in which the numbers of the session are replaced by what they stand for, and
the services behind the step are those that the request leaves (`services_step`). So what services keep
is proved request by request, and the history of a run is told by its requests. -/

namespace CallGate

namespace Services

/-- The controller behind input `i`, unless a device of another make is there. -/
def controller? (s : Services) (i : Nat) : Option Controller := (s.inputs.get i).controller?

/-- Sets one part of a controller. A device of another make has nothing to be set. -/
def update (s : Services) (i : Nat) (u : Update) : Services :=
  match s.controller? i with
  | some c => s.setController i (u.apply c)
  | none => s

variable {s : Services} {i : Nat} {c : Controller}

theorem pad_of_controller (present : s.controller? i = some c) : s.inputs.get i = .pad c := by
  rw [controller?] at present
  cases source : s.inputs.get i with
  | pad d =>
      rw [source] at present
      obtain rfl : d = c := Option.some.inj present
      rfl
  | device d polls =>
      rw [source] at present
      cases present

theorem buttons_of_controller (present : s.controller? i = some c) :
    (s.pollButtons i).1 = c.buttons := by
  rw [pollButtons, pad_of_controller present]
  rfl

theorem axes_of_controller (present : s.controller? i = some c) :
    (s.pollAxes i).1 = c.cameraAxes s.mode := by
  rw [pollAxes, pad_of_controller present]
  rfl

theorem controller_update (s : Services) (i j : Nat) (u : Update) :
    (s.update j u).controller? i = (s.controller? i).map fun c => if j = i then u.apply c else c := by
  unfold update
  by_cases here : j = i
  · subst here
    cases present : s.controller? j with
    | none => exact present
    | some c =>
        have stored : (s.setController j (u.apply c)).inputs.get j = .pad (u.apply c) :=
          s.inputs.get_set_same _ _
        simp only [controller?, stored, InputSource.controller?, Option.map_some, if_pos]
  · simp only [if_neg here, Option.map_id']
    split
    · next c _ =>
      have stored : (s.setController j (u.apply c)).inputs.get i = s.inputs.get i :=
        s.inputs.get_set_other (Ne.symm here) _
      simp only [controller?, stored]
    · rfl

theorem controller_addInput (s : Services) {source : InputSource}
    (neutral : source.controller? = none ∨ source.controller? = some {})
    (present : (s.addInput source).2.controller? i = some c) : s.controller? i = some c := by
  change ((s.inputs.push source).get i).controller? = some c at present
  by_cases new : i = s.inputs.size
  · subst new
    rw [Table.get_push_size] at present
    rcases neutral with missing | fresh
    · rw [missing] at present
      cases present
    · rw [controller?, Table.get_of_size_le _ (Nat.le_refl _), ← present, fresh]
      rfl
  · rwa [Table.get_push_of_ne _ new] at present

end Services

inductive Request
  | nothing
  | update (input : Nat) (u : Update)
  | setMode (mode : CameraMode)
  | addController
  | addDevice (d : Device)
  | addSink (sink : Sink)
  | pollButtons (input : Nat)
  | pollAxes (input : Nat)
  | write (sink : Nat) (data : ByteArray)
  | take (sink : Nat)
  | puts (host : Host) (data : ByteArray) (size : UInt32)
  | install (host : Host)
  | call (route : Route) (c : Capability) (host : Host)

namespace Request

def serve (m : Machine) : Request → Services
  | nothing => m.services
  | update i u => m.services.update i u
  | setMode mode => m.services.setMode mode
  | addController => (m.services.addInput (.pad {})).2
  | addDevice d => (m.services.addInput (.device d 0)).2
  | addSink sink => (m.services.addSink sink).2
  | pollButtons i => (m.services.pollButtons i).2
  | pollAxes i => (m.services.pollAxes i).2
  | write sink data => (m.services.write sink data).2
  | take sink => (m.services.take sink).2
  | puts host data size => m.services.puts host data size
  | install host => (m.services.install host).2
  | call route c host => (route.run c host m).2.services

def updateOf? (i : Nat) : Request → Option Update
  | update j u => if j = i then some u else none
  | _ => none

def mode? : Request → Option CameraMode
  | setMode mode => some mode
  | _ => none

def installed? : Request → Option Host
  | install host => some host
  | _ => none

variable {m : Machine} {i : Nat} {c : Controller}

def isSteady : Request → Bool
  | update _ _ | setMode _ | addController | addDevice _ | install _ => false
  | _ => true

theorem steady_serve (m : Machine) {r : Request} (steady : r.isSteady = true) :
    Services.Steady m.services (r.serve m) := by
  cases r with
  | nothing => exact Services.Steady.refl _
  | addSink sink => exact ⟨rfl, rfl, fun _ => rfl, List.prefix_rfl⟩
  | pollButtons i => exact m.services.steady_pollButtons i
  | pollAxes i => exact m.services.steady_pollAxes i
  | write sink data => exact m.services.steady_write sink data
  | take sink => exact ⟨rfl, rfl, fun _ => rfl, List.prefix_rfl⟩
  | puts host data size => exact m.services.steady_puts host data size
  | call route c host => exact route.steady_run c host m
  | update | setMode | addController | addDevice | install => cases steady

theorem mode_serve (m : Machine) (r : Request) : (r.serve m).mode = r.mode?.getD m.services.mode := by
  cases r with
  | update i u =>
      change (m.services.update i u).mode = _
      unfold Services.update
      split <;> rfl
  | setMode mode => exact m.services.mode_setMode mode
  | addController | addDevice | install => rfl
  | _ => exact (steady_serve m rfl).mode

theorem installed_serve (m : Machine) (r : Request) :
    (r.serve m).installed = r.installed?.getD m.services.installed := by
  cases r with
  | update i u =>
      change (m.services.update i u).installed = _
      unfold Services.update
      split <;> rfl
  | setMode | addController | addDevice | install => rfl
  | _ => exact (steady_serve m rfl).installed

/-- A controller behind a request is the one before it with the request's update of it, if any. -/
theorem controller_serve {r : Request} (present : (r.serve m).controller? i = some c) :
    ∃ before, m.services.controller? i = some before ∧
      c = (r.updateOf? i).toList.foldl Update.apply before := by
  cases r with
  | update j u =>
      change (m.services.update j u).controller? i = some c at present
      rw [Services.controller_update, Option.map_eq_some_iff] at present
      obtain ⟨before, was, becomes⟩ := present
      refine ⟨before, was, ?_⟩
      rw [← becomes, updateOf?]
      split <;> rfl
  | addController => exact ⟨c, m.services.controller_addInput (.inr rfl) present, rfl⟩
  | addDevice d => exact ⟨c, m.services.controller_addInput (.inl rfl) present, rfl⟩
  | setMode | install => exact ⟨c, present, rfl⟩
  | _ => exact ⟨c, ((steady_serve m rfl).controller i).symm.trans present, rfl⟩

end Request

namespace Session

def resolve {α : Type} (entries : Array α) (n : Nat) (use : α → Request) : Request :=
  match entries[n]? with
  | some a => use a
  | none => .nothing

def inputRequest (s : Session) : InputStep → Request
  | .addController => .addController
  | .addDevice held axes => .addDevice (Device.constant held axes)
  | .setButtons n held => resolve s.inputs n (.update · (.buttons held))
  | .setLeft n axes => resolve s.inputs n (.update · (.left axes))
  | .setRight n axes => resolve s.inputs n (.update · (.right axes))
  | .pollButtons n => resolve s.inputs n .pollButtons
  | .pollAxes n => resolve s.inputs n .pollAxes
  | .setMode mode => .setMode mode
  | _ => .nothing

def outputRequest (s : Session) : OutputStep → Request
  | .addCapture => .addSink Sink.capture
  | .addStandard => .nothing
  | .addFailing count reason => .addSink (Sink.failingAfter count reason)
  | .write n data => resolve s.sinks n (.write · data)
  | .contents _ => .nothing
  | .take n => resolve s.sinks n .take
  | .takeStandard => .take Host.standard.sink

def hostRequest (s : Session) : HostStep → Request
  | .add _ _ => .nothing
  | .pollButtons n => resolve s.hosts n fun h => .pollButtons h.input
  | .pollAxes n => resolve s.hosts n fun h => .pollAxes h.input
  | .write n data => resolve s.hosts n fun h => .write h.sink data
  | .itemInputs n => resolve s.hosts n fun h => .pollButtons h.input
  | .cameraInputs n => resolve s.hosts n fun h => .pollAxes h.input
  | .puts n data size => resolve s.hosts n fun h => .puts h data size
  | .install n => resolve s.hosts n .install
  | .current => .nothing

def callRequest (s : Session) : CallStep → Request
  | .capabilities => .nothing
  | .find _ => .nothing
  | .call symbol n => resolve s.hosts n fun h =>
    match Capability.find? symbol with
    | some c => .call .call c h
    | none => .nothing
  | .handle c n => resolve s.hosts n fun h => .call .handler c h
  | .enter c => .call .entry c s.services.installed
  | .nativeItemInputs => .pollButtons s.services.installed.input
  | .nativeCameraInputs => .pollAxes s.services.installed.input
  | .nativePuts data size => .puts s.services.installed data size

def request (s : Session) : Step → Request
  | .memory _ => .nothing
  | .registers _ => .nothing
  | .convention _ => .nothing
  | .input x => s.inputRequest x
  | .output x => s.outputRequest x
  | .host x => s.hostRequest x
  | .call x => s.callRequest x

/-- What the steps of a run come to, each in the session that it finds. -/
def along {α : Type} (f : Session → Step → Option α) : Session → List Step → List α
  | _, [] => []
  | s, x :: steps => (f s x).toList ++ along f (s.step x).2 steps

def asked {α : Type} (part : Request → Option α) (s : Session) (steps : List Step) : List α :=
  along (fun s x => part (s.request x)) s steps

variable {s : Session}

theorem resolve_cases {α : Type} {entries : Array α} {n : Nat} {ask : α → Request} {P : Request → Prop}
    (nothing : P .nothing) (asked : ∀ a, entries[n]? = some a → P (ask a)) :
    P (resolve entries n ask) := by
  unfold resolve
  split
  · next named => exact asked _ named
  · exact nothing

def Served (s : Session) (a : Answer) (r : Request) : Prop := a.2.services = r.serve s.machine

theorem served_nothing {a : Answer} (kept : a.2.services = s.services) : Served s a .nothing := kept

theorem served_withInput {n : Nat} {use : Nat → Answer} {ask : Nat → Request}
    (served : ∀ i, Served s (use i) (ask i)) :
    Served s (s.withInput n use) (resolve s.inputs n ask) := by
  cases named : s.inputs[n]? with
  | none => simp only [resolve, withInput, named, Served]; rfl
  | some _ => simpa only [resolve, withInput, named] using served _

theorem served_withSink {n : Nat} {use : Nat → Answer} {ask : Nat → Request}
    (served : ∀ i, Served s (use i) (ask i)) :
    Served s (s.withSink n use) (resolve s.sinks n ask) := by
  cases named : s.sinks[n]? with
  | none => simp only [resolve, withSink, named, Served]; rfl
  | some _ => simpa only [resolve, withSink, named] using served _

theorem served_withHost {n : Nat} {use : Host → Answer} {ask : Host → Request}
    (served : ∀ h, Served s (use h) (ask h)) :
    Served s (s.withHost n use) (resolve s.hosts n ask) := by
  cases named : s.hosts[n]? with
  | none => simp only [resolve, withHost, named, Served]; rfl
  | some _ => simpa only [resolve, withHost, named] using served _

theorem served_update (s : Session) (n : Nat) (u : Update) :
    Served s (s.withController n fun i c =>
        (s.withServices (s.services.setController i (u.apply c))).answer .done)
      (resolve s.inputs n (.update · u)) := by
  apply served_withInput
  intro i
  change _ = s.services.update i u
  unfold Services.update Services.controller?
  cases (s.services.inputs.get i).controller? <;> rfl

theorem served_offerText (s : Session) (sink : Nat) (data : ByteArray) :
    Served s (s.offerText sink data) (.write sink data) :=
  congrArg services (offerText_snd s sink data)

theorem served_puts (s : Session) (h : Host) (data : ByteArray) (size : UInt32) :
    Served s ((s.withServices (s.services.puts h data size)).answer .done) (.puts h data size) := by
  rw [Served, answer_snd, services_withServices, Request.serve]
  rfl

theorem served_inputStep (s : Session) (x : InputStep) :
    Served s (s.inputStep x) (s.inputRequest x) := by
  have read (n : Nat) (use : Nat → Controller → Reply) :
      Served s (s.withController n fun i c => s.answer (use i c)) .nothing :=
    withController_cases (P := fun a => a.2.services = s.services) (fun _ => rfl) fun _ _ => rfl
  cases x with
  | setButtons n held => exact served_update s n (.buttons held)
  | setLeft n axes => exact served_update s n (.left axes)
  | setRight n axes => exact served_update s n (.right axes)
  | left n => exact read n _
  | right n => exact read n _
  | pollButtons n => exact served_withInput fun _ => rfl
  | pollAxes n => exact served_withInput fun _ => rfl
  | _ => rfl

theorem served_outputStep (s : Session) (x : OutputStep) :
    Served s (s.outputStep x) (s.outputRequest x) := by
  cases x with
  | write n data => exact served_withSink fun i => served_offerText s i data
  | contents n =>
      exact withSink_cases (P := fun a => a.2.services = s.services) (fun _ => rfl) fun _ _ => rfl
  | take n => exact served_withSink fun _ => rfl
  | _ => rfl

theorem served_hostStep (s : Session) (x : HostStep) :
    Served s (s.hostStep x) (s.hostRequest x) := by
  cases x with
  | add input sink =>
      apply withInput_cases (P := fun a => a.2.services = s.services) (fun _ => rfl)
      intro i
      exact withSink_cases (P := fun a => a.2.services = s.services) (fun _ => rfl) fun _ _ => rfl
  | write n data => exact served_withHost fun h => served_offerText s h.sink data
  | puts n data size => exact served_withHost fun h => served_puts s h data size
  | current => rfl
  | _ => exact served_withHost fun _ => rfl

theorem served_callStep (s : Session) (x : CallStep) :
    Served s (s.callStep x) (s.callRequest x) := by
  have called (route : Route) (c : Capability) (host : Host) :
      Served s (s.answerOutcome (route.run c host s.machine)) (.call route c host) :=
    congrArg services (answerOutcome_snd s _)
  cases x with
  | call symbol n =>
      apply served_withHost
      intro h
      cases Capability.find? symbol with
      | none => exact served_nothing rfl
      | some c => exact called .call c h
  | handle c n => exact served_withHost fun h => called .handler c h
  | enter c => exact called .entry c s.services.installed
  | nativePuts data size => exact served_puts s s.services.installed data size
  | _ => rfl

theorem services_step (s : Session) (x : Step) :
    (s.step x).2.services = (s.request x).serve s.machine := by
  cases x with
  | memory x => exact (guestOnly_memoryStep s x).services
  | registers x => exact (guestOnly_registerStep s x).services
  | convention x => exact (guestOnly_conventionStep s x).services
  | input x => exact served_inputStep s x
  | output x => exact served_outputStep s x
  | host x => exact served_hostStep s x
  | call x => exact served_callStep s x

end Session

end CallGate
