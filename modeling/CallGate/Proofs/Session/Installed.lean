import CallGate.Proofs.Session.Serving

/-! The hosts that a session installs, one after the other.

An install hands back what is installed, so along a run each installed host is handed back by the next
install, and the last one is the one in service. A host is two references and nothing more: whoever
holds one goes on with the same two services, in whatever state they are, whichever host is installed by
then. -/

namespace CallGate.Session

def replaced? (s : Session) (x : Step) : Option Host :=
  match x, (s.step x).1 with
  | .host (.install _), .ok (.number n) => (s.step x).2.hosts[n]?
  | _, _ => none

def handedBack (s : Session) (steps : List Step) : List Host := along replaced? s steps

def installs (s : Session) (steps : List Step) : List Host := asked Request.installed? s steps

variable {s : Session}

theorem run_append (s : Session) (first later : List Step) :
    (run s (first ++ later)).2 = (run (run s first).2 later).2 := by
  induction first generalizing s with
  | nil => rfl
  | cons x first ih => exact ih _

theorem step_install {n : Nat} {h : Host} (named : s.hosts[n]? = some h) :
    s.step (.host (.install n))
      = (.ok (.number s.hosts.size),
        { s.withServices { s.services with installed := h } with
          hosts := s.hosts.push s.services.installed }) := by
  simp only [step, hostStep, withHost, named]
  rfl

theorem hosts_withServices (s : Session) (services : Services) :
    (s.withServices services).hosts = s.hosts := rfl

theorem hosts_callStep (s : Session) (x : CallStep) : (s.callStep x).2.hosts = s.hosts := by
  apply callStep_cases (P := fun a => a.2.hosts = s.hosts)
  · intro route c host
    rw [answerOutcome_snd]
  · intro services reply _
    rfl
  · intro reply
    rfl

theorem hosts_step {n : Nat} {h : Host} (named : s.hosts[n]? = some h) (x : Step) :
    (s.step x).2.hosts[n]? = some h := by
  have same {after : Session} (kept : after.hosts = s.hosts) : after.hosts[n]? = some h := by
    rw [kept]
    exact named
  have hosted (m : Nat) (use : Host → Answer) (used : ∀ g, (use g).2.hosts[n]? = some h) :
      (s.withHost m use).2.hosts[n]? = some h :=
    withHost_cases (P := fun a => a.2.hosts[n]? = some h) (fun _ => named) fun g _ => used g
  cases x with
  | memory x => exact same (guestOnly_memoryStep s x).hosts
  | registers x => exact same (guestOnly_registerStep s x).hosts
  | convention x => exact same (guestOnly_conventionStep s x).hosts
  | input x => exact same (hostsKept_inputStep s x).hosts
  | output x => exact same (hostsKept_outputStep s x).hosts
  | call x => exact same (hosts_callStep s x)
  | host x =>
      cases x with
      | add input sink =>
          apply withInput_cases (P := fun a => a.2.hosts[n]? = some h) (fun _ => named)
          intro i
          exact withSink_cases (P := fun a => a.2.hosts[n]? = some h) (fun _ => named)
            fun _ _ => named_push named _
      | write m data =>
          apply hosted
          intro g
          rw [offerText_snd, hosts_withServices]
          exact named
      | puts m data size =>
          apply hosted
          intro g
          rw [answer_snd, hosts_withServices]
          exact named
      | install m => exact hosted m _ fun _ => named_push named _
      | current => exact named_push named _
      | _ => exact hosted _ _ fun _ => named

theorem hosts_run {n : Nat} {h : Host} (named : s.hosts[n]? = some h) (steps : List Step) :
    (run s steps).2.hosts[n]? = some h := by
  induction steps generalizing s with
  | nil => exact named
  | cons x steps ih => exact ih (hosts_step named x)

theorem installed_request (s : Session) {x : Step} (other : ∀ n, x ≠ .host (.install n)) :
    (s.request x).installed? = none := by
  have resolved {α : Type} (entries : Array α) (n : Nat) {ask : α → Request}
      (quiet : ∀ a, (ask a).installed? = none) : (resolve entries n ask).installed? = none :=
    resolve_cases (P := fun r => r.installed? = none) rfl fun a _ => quiet a
  cases x with
  | input x =>
      cases x with
      | setButtons | setLeft | setRight | pollButtons | pollAxes =>
          exact resolved _ _ fun _ => rfl
      | _ => rfl
  | output x =>
      cases x with
      | write | take => exact resolved _ _ fun _ => rfl
      | _ => rfl
  | host x =>
      cases x with
      | install n => exact absurd rfl (other n)
      | add | current => rfl
      | _ => exact resolved _ _ fun _ => rfl
  | call x =>
      cases x with
      | call symbol n =>
          apply resolved
          intro h
          cases Capability.find? symbol <;> rfl
      | handle => exact resolved _ _ fun _ => rfl
      | _ => rfl
  | _ => rfl

/-- One link of the chain: what an install is handed back was in service before it, and what it is given
is in service behind it. -/
theorem handed_on_step (s : Session) (x : Step) :
    (replaced? s x).toList ++ [(s.step x).2.services.installed]
      = s.services.installed :: (s.request x).installed?.toList := by
  by_cases installing : ∃ n, x = .host (.install n)
  · obtain ⟨n, rfl⟩ := installing
    cases named : s.hosts[n]? with
    | none =>
        have refused : s.step (.host (.install n)) = s.refuse (.noSuchHost n) := by
          simp only [step, hostStep, withHost, named]
        simp only [replaced?, request, hostRequest, resolve, refused, named]
        rfl
    | some h =>
        simp only [replaced?, request, hostRequest, resolve, step_install named, named,
          Array.getElem?_push_size]
        rfl
  · have other : ∀ n, x ≠ .host (.install n) := by
      intro n same
      exact installing ⟨n, same⟩
    have nothing : replaced? s x = none := by
      unfold replaced?
      split
      · exact absurd rfl (other _)
      · rfl
    have kept := Request.installed_serve s.machine (s.request x)
    rw [nothing, services_step, kept, installed_request s other]
    rfl

theorem handed_on_run (s : Session) (steps : List Step) :
    handedBack s steps ++ [(run s steps).2.services.installed]
      = s.services.installed :: installs s steps := by
  -- the host that a step leaves in service is the one that the rest of the chain begins with
  induction steps generalizing s with
  | nil => rfl
  | cons x steps ih =>
      have rest : handedBack (s.step x).2 steps ++ [(run s (x :: steps)).2.services.installed]
          = (s.step x).2.services.installed :: installs (s.step x).2 steps := ih _
      calc
        handedBack s (x :: steps) ++ [(run s (x :: steps)).2.services.installed]
            = (replaced? s x).toList ++ ((s.step x).2.services.installed ::
                installs (s.step x).2 steps) := by
          rw [← rest, ← List.append_assoc]
          rfl
        _ = ((replaced? s x).toList ++ [(s.step x).2.services.installed]) ++
              installs (s.step x).2 steps := by
          rw [List.append_assoc]
          rfl
        _ = s.services.installed :: installs s (x :: steps) := by
          rw [handed_on_step]
          rfl

/-- The host in service: it is the current one, the next install hands it back and changes nothing else
of the services, and every entry point of both forms has the effect of its capability on this host, with
the services as they are. -/
structure InService (s : Session) (latest : Host) : Prop where
  current : ∃ n : Nat, (s.step (.host .current)).1 = .ok (.number n) ∧
    (s.step (.host .current)).2.hosts[n]? = some latest
  install : ∀ (n : Nat) (h : Host), s.hosts[n]? = some h →
    replaced? s (.host (.install n)) = some latest ∧
      (s.step (.host (.install n))).2.services = { s.services with installed := h }
  entry : ∀ c, Serves s (.call (.enter c)) .entry c latest
  native : Native s (.call .nativeItemInputs) (.call .nativeCameraInputs)
    (fun data size => .call (.nativePuts data size)) latest

/-- Whoever holds a host by number reaches its input and its sink, in the state they are in. -/
structure Held (s : Session) (n : Nat) (h : Host) : Prop where
  named : s.hosts[n]? = some h
  handle : ∀ c, Serves s (.call (.handle c n)) .handler c h
  call : ∀ c : Capability, Serves s (.call (.call c.symbol n)) .call c h
  native : Native s (.host (.itemInputs n)) (.host (.cameraInputs n))
    (fun data size => .host (.puts n data size)) h
  buttons : Polls s (.host (.pollButtons n)) (.scalar .u32 (s.services.held h)) h.input
    (.buttonsPolled h.input (s.services.held h))
  camera : Polls s (.host (.pollAxes n)) (.axes (s.services.deflected h)) h.input
    (.axesPolled h.input (s.services.deflected h))
  sink : ∀ data, (s.step (.host (.write n data))).2.services.sinks.get h.sink
    = ((s.services.sinks.get h.sink).write data).2

theorem inService_installed (s : Session) : InService s s.services.installed := by
  refine ⟨⟨s.hosts.size, rfl, Array.getElem?_push_size⟩, ?_, ?_, ?_⟩
  · intro n h named
    constructor
    · simp only [replaced?, step_install named, Array.getElem?_push_size]
    · rw [step_install named]
      rfl
  · intro c
    exact serves_of_run .entry s.services.installed rfl
  · exact native_of_steps rfl rfl fun _ _ => rfl

theorem held_of_named {n : Nat} {h : Host} (named : s.hosts[n]? = some h) : Held s n h := by
  have reached (use : Host → Answer) : s.withHost n use = use h := by
    simp only [withHost, named]
  refine ⟨named, ?_, ?_, ?_, polls_buttons (reached _), polls_axes (reached _), ?_⟩
  · intro c
    exact serves_of_run .handler h (reached _)
  · intro c
    apply serves_of_run .call h
    simp only [step, callStep, reached, Capability.find?_symbol]
    rfl
  · exact native_of_steps (reached _) (reached _) fun _ _ => reached _
  · intro data
    rw [step, hostStep, reached, offerText_snd]
    exact s.services.sinks.get_set_same _ _

/-- The hosts that installs hand back, followed by the current one, are the standard host followed by
the installed ones, in their order: none is lost and none comes twice. The last of them is in service
for all entry points, with its services as they are then. A host that was handed out before is held
ever after, whatever is installed. -/
theorem installs_hand_on (fresh : s.services.installed = Host.standard) (steps : List Step) :
    ∃ latest : Host,
      handedBack s steps ++ [latest] = Host.standard :: installs s steps ∧
      InService (run s steps).2 latest ∧
      ∀ first later, steps = first ++ later → ∀ (n : Nat) (h : Host),
        (run s first).2.hosts[n]? = some h → Held (run s steps).2 n h := by
  refine ⟨(run s steps).2.services.installed, ?_, inService_installed _, ?_⟩
  · rw [handed_on_run, fresh]
  · rintro first later rfl n h named
    rw [run_append]
    exact held_of_named (hosts_run named later)

/-- A guest loads its argument words, and a host is installed, updated, handed out, replaced and installed
again. -/
def installedTwice : List Step :=
  [.memory (.writeWord 0x80000010 0x68692121), .registers (.setWord 4 0x80000010),
    .registers (.setWord 5 2), .host (.install 1), .input (.setButtons 0 0x20), .host .current,
    .host (.install 2), .input (.setButtons 0 0x21), .host (.install 3)]

def reinstalled : Session := (run start installedTwice).2

/-- All entry points go to the host installed last: its buttons in the native form and in guest memory, a
fault between two messages, a text in its sink. The host that the first install handed back is still at
rest. -/
theorem installs_hand_on_installedTwice :
    start.services.installed = Host.standard ∧
    handedBack start installedTwice = [Host.standard, ⟨1, 1⟩, Host.standard] ∧
    (reinstalled.step (.call .nativeItemInputs)).1 = .ok (.scalar .u32 0x21) ∧
    (reinstalled.step (.host (.itemInputs 2))).1 = .ok (.scalar .u32 0) ∧
    (reinstalled.step (.call (.enter .itemInputs))).2.memory.readWord 0x80000010 = .ok 0x21 ∧
    (reinstalled.step (.call (.handle .itemInputs 2))).2.memory.readWord 0x80000010 = .ok 0 ∧
    (reinstalled.step (.call (.enter .cameraInputs))).1 = .error (.fault (.outOfBounds 2 4)) ∧
    announced (reinstalled.step (.call (.enter .cameraInputs))).2.services.journal.toList
      = [.called "recomp_get_camera_inputs",
          .aborted "recomp_get_camera_inputs" (.outOfBounds 2 4)] ∧
    ((reinstalled.step (.call (.enter .puts))).2.services.sinks.get 1).kept.data.toList
      = [0x68, 0x69] ∧
    ((reinstalled.step (.call (.enter .puts))).2.services.sinks.get 0).kept.data.toList = [] := by
  obtain ⟨latest, chain, serves, held⟩ := installs_hand_on (s := start) rfl installedTwice
  have replaced : handedBack start installedTwice = [Host.standard, ⟨1, 1⟩, Host.standard] := by
    decide +kernel
  have installed : installs start installedTwice = [⟨1, 1⟩, Host.standard, ⟨1, 1⟩] := by
    decide +kernel
  rw [replaced, installed] at chain
  obtain rfl : latest = ⟨1, 1⟩ := by simpa using chain
  change InService reinstalled _ at serves
  have standard : Held reinstalled 2 Host.standard :=
    held (installedTwice.take 4) (installedTwice.drop 4) rfl 2 Host.standard (by decide +kernel)
  have pointer : reinstalled.machine.firstWord = 0x80000010 := by decide +kernel
  have inside : reinstalled.memory.Contains 0x80000010 4 := by decide +kernel
  have updated : reinstalled.services.held ⟨1, 1⟩ = 0x21 := by decide +kernel
  have untouched : reinstalled.services.held Host.standard = 0 := by decide +kernel
  have silent : announced reinstalled.services.journal.toList = [] := by decide +kernel
  have fault : Capability.cameraInputs.fault? reinstalled.memory reinstalled.machine.firstWord
      reinstalled.machine.secondWord = some (.outOfBounds 2 4) := by decide +kernel
  refine ⟨rfl, replaced, ?_, ?_, ?_, ?_, ?_, ?_, ?_, ?_⟩
  · rw [serves.native.buttons.reply, updated]
  · rw [standard.native.buttons.reply, untouched]
  · rw [(serves.entry .itemInputs).stored pointer inside, updated]
  · rw [(standard.handle .itemInputs).stored pointer inside, untouched]
  · rw [(serves.entry .cameraInputs).reply, fault]
    rfl
  · rw [(serves.entry .cameraInputs).messages, fault, silent]
    rfl
  · rw [(serves.entry .puts).sinks]
    decide +kernel
  · rw [(serves.entry .puts).sinks]
    decide +kernel

end CallGate.Session
