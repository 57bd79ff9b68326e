import CallGate.Proofs.Session.Requests

/-! What a poll tells of the updates before it.

A controller is no more than the last mask and the last two deflections that were set on it, and the
camera mode is the last one set. So every poll of a controller, direct, through a host or by a guest, is
told by the updates of that controller and the modes of the run, whatever else happens in between. -/

namespace CallGate.Session

structure Untouched (s : Session) : Prop where
  mode : s.services.mode = .normal
  controllers : ∀ i c, s.services.controller? i = some c → c = {}

variable {s : Session} {i : Nat} {c : Controller}

theorem controller_run (steps : List Step) (present : (run s steps).2.services.controller? i = some c) :
    ∃ before, s.services.controller? i = some before ∧
      c = (asked (Request.updateOf? i) s steps).foldl Update.apply before := by
  induction steps generalizing s with
  | nil => exact ⟨c, present, rfl⟩
  | cons x steps ih =>
      obtain ⟨between, middle, later⟩ := ih (s := (s.step x).2) present
      rw [services_step] at middle
      obtain ⟨before, first, sooner⟩ := Request.controller_serve middle
      refine ⟨before, first, ?_⟩
      rw [later, sooner, ← List.foldl_append]
      rfl

theorem mode_run (s : Session) (steps : List Step) :
    (run s steps).2.services.mode
      = (asked Request.mode? s steps).getLast?.getD s.services.mode := by
  induction steps generalizing s with
  | nil => rfl
  | cons x steps ih =>
      have rest : (run s (x :: steps)).2.services.mode
          = (asked Request.mode? (s.step x).2 steps).getLast?.getD (s.step x).2.services.mode := ih _
      have cons : asked Request.mode? s (x :: steps)
          = (s.request x).mode?.toList ++ asked Request.mode? (s.step x).2 steps := rfl
      rw [rest, cons, List.getLast?_append, services_step, Request.mode_serve]
      -- a mode that is set later wins
      cases (asked Request.mode? (s.step x).2 steps).getLast? with
      | some later => rfl
      | none => cases (s.request x).mode? <;> rfl

/-- Everyone who polls input `i` is told the same, whether directly, through a host or by a guest call
on a host. -/
structure Shows (s : Session) (i : Nat) (held : UInt32) (left right camera : Axes) : Prop where
  directButtons : ∀ n : Nat, s.inputs[n]? = some i →
    (s.step (.input (.pollButtons n))).1 = .ok (.scalar .u32 held)
  directLeft : ∀ n : Nat, s.inputs[n]? = some i →
    (s.step (.input (.left n))).1 = .ok (.axes left)
  directRight : ∀ n : Nat, s.inputs[n]? = some i →
    (s.step (.input (.right n))).1 = .ok (.axes right)
  directCamera : ∀ n : Nat, s.inputs[n]? = some i →
    (s.step (.input (.pollAxes n))).1 = .ok (.axes camera)
  hostButtons : ∀ (n : Nat) (h : Host), s.hosts[n]? = some h → h.input = i →
    (s.step (.host (.pollButtons n))).1 = .ok (.scalar .u32 held) ∧
      (s.step (.host (.itemInputs n))).1 = .ok (.scalar .u32 held)
  hostCamera : ∀ (n : Nat) (h : Host), s.hosts[n]? = some h → h.input = i →
    (s.step (.host (.pollAxes n))).1 = .ok (.axes camera) ∧
      (s.step (.host (.cameraInputs n))).1 = .ok (.axes camera)
  entry : s.services.installed.input = i →
    (s.step (.call .nativeItemInputs)).1 = .ok (.scalar .u32 held) ∧
      (s.step (.call .nativeCameraInputs)).1 = .ok (.axes camera)
  guest : ∀ (route : Route) (host : Host), (route.server host s.machine).input = i →
    (route.run .itemInputs host s.machine).2.memory
        = Edit.run s.memory [.typed .u32 s.machine.firstWord held] ∧
      (route.run .cameraInputs host s.machine).2.memory
        = Edit.run s.memory (if s.memory.Contains s.machine.firstWord 4
          then [.typed .f32 s.machine.firstWord camera.x, .typed .f32 s.machine.secondWord camera.y]
          else [])

theorem shows_controller (present : s.services.controller? i = some c) :
    Shows s i c.buttons c.left c.right (c.cameraAxes s.services.mode) := by
  have held : (s.answerButtons (s.services.pollButtons i)).1 = .ok (.scalar .u32 c.buttons) := by
    rw [answerButtons, Services.buttons_of_controller present]
  have axes : (s.answerAxes (s.services.pollAxes i)).1
      = .ok (.axes (c.cameraAxes s.services.mode)) := by
    rw [answerAxes, Services.axes_of_controller present]
  have direct (n : Nat) (named : s.inputs[n]? = some i) (use : Nat → Controller → Answer) :
      s.withController n use = use i c := by
    rw [Services.controller?] at present
    simp only [withController, withInput, named, present]
  refine ⟨?_, ?_, ?_, ?_, ?_, ?_, ?_, ?_⟩
  · intro n named
    simp only [step, inputStep, withInput, named, held]
  · intro n named
    simp only [step, inputStep, direct n named, answer]
  · intro n named
    simp only [step, inputStep, direct n named, answer]
  · intro n named
    simp only [step, inputStep, withInput, named, axes]
  · rintro n h named rfl
    simp only [step, hostStep, withHost, named, Services.itemInputs, held, and_self]
  · rintro n h named rfl
    simp only [step, hostStep, withHost, named, Services.cameraInputs, axes, and_self]
  · rintro rfl
    simp only [step, callStep, Services.itemInputs, Services.cameraInputs, held, axes, and_self]
  · rintro route host rfl
    obtain ⟨-, -, items⟩ := route.run_eq .itemInputs host s.machine
    obtain ⟨-, -, camera⟩ := route.run_eq .cameraInputs host s.machine
    rw [items, camera, Capability.edits, Capability.edits, Services.itemInputs, Services.cameraInputs]
    have polledButtons := Services.buttons_of_controller present
    have polledAxes := Services.axes_of_controller present
    simp only [services] at polledButtons polledAxes
    simp only [polledButtons, polledAxes]
    exact ⟨rfl, rfl⟩

/-- A poll of a controller is told by the updates before it, whatever else a session did. The buttons are
the last mask set on this controller, each stick is the last deflection set on it, clamped axis by axis,
and the camera is the right stick if the last mode set is dual analog. All are at rest as long as nothing
was set, and no axis leaves `[-1, 1]`. -/
theorem polls_tell_last_updates (untouched : Untouched s) (steps : List Step)
    (present : (run s steps).2.services.controller? i = some c) :
    let updates := asked (Request.updateOf? i) s steps
    let held := (lastOf Update.buttons? updates).getD 0
    let left := ((lastOf Update.left? updates).map Axes.normalized).getD Axes.rest
    let right := ((lastOf Update.right? updates).map Axes.normalized).getD Axes.rest
    let camera := if (asked Request.mode? s steps).getLast? = some .dualAnalog then right else Axes.rest
    Shows (run s steps).2 i held left right camera ∧
      left.InSquare ∧ right.InSquare ∧ camera.InSquare := by
  intro updates held left right camera
  obtain ⟨before, was, becomes⟩ := controller_run steps present
  obtain rfl := untouched.controllers i before was
  have whole : c = ⟨held, left, right⟩ := by
    rw [becomes]
    exact Update.foldl_apply_neutral updates
  have mode : (run s steps).2.services.mode
      = (asked Request.mode? s steps).getLast?.getD .normal := by
    rw [mode_run, untouched.mode]
  have shown : c.cameraAxes (run s steps).2.services.mode = camera := by
    rw [mode, whole]
    simp only [camera]
    rcases (asked Request.mode? s steps).getLast? with _ | _ | _ <;> rfl
  have leftInside : left.InSquare := Update.inSquare_lastOf Update.left? updates
  have rightInside : right.InSquare := Update.inSquare_lastOf Update.right? updates
  refine ⟨?_, leftInside, rightInside, ?_⟩
  · have shows := shows_controller present
    rw [shown, whole] at shows
    exact shows
  · simp only [camera]
    split
    · exact rightInside
    · exact Axes.inSquare_rest

theorem untouched_start : Untouched start := by
  refine ⟨rfl, ?_⟩
  intro i c present
  have neutral : start.services.inputs.get i = .pad {} := by
    match i with
    | 0 => rfl
    | 1 => rfl
    | n + 2 => exact Table.get_of_size_le _ (Nat.le_add_left 2 n)
  rw [Services.controller?, neutral] at present
  exact (Option.some.inj present).symm

/-- Two controllers: a NaN and `-3` on the right stick of the first, before the mode is changed back and
forth, and updates of the other in between. -/
def twoControllers : List Step :=
  [.input .addController, .input (.setRight 0 ⟨⟨0x7fc00001⟩, ⟨0xc0400000⟩⟩),
    .input (.setMode .dualAnalog), .input (.setButtons 1 0x20), .input (.setButtons 0 0x8001),
    .input (.setMode .normal), .input (.setRight 1 ⟨⟨0x3f000000⟩, ⟨0⟩⟩), .call (.handle .itemInputs 1),
    .input (.setMode .dualAnalog), .input (.setButtons 0 1)]

theorem polls_tell_last_updates_twoControllers :
    Untouched start ∧
    (run start twoControllers).2.services.controller? 1
      = some ⟨1, Axes.rest, ⟨Single.zero, Single.minusOne⟩⟩ ∧
    ((run start twoControllers).2.step (.input (.pollButtons 0))).1 = .ok (.scalar .u32 1) ∧
    ((run start twoControllers).2.step (.input (.left 0))).1 = .ok (.axes Axes.rest) ∧
    ((run start twoControllers).2.step (.host (.cameraInputs 1))).1
      = .ok (.axes ⟨Single.zero, Single.minusOne⟩) := by
  have present : (run start twoControllers).2.services.controller? 1
      = some ⟨1, Axes.rest, ⟨Single.zero, Single.minusOne⟩⟩ := by decide +kernel
  obtain ⟨shows, -⟩ := polls_tell_last_updates untouched_start twoControllers present
  exact ⟨untouched_start, present, shows.directButtons 0 rfl, shows.directLeft 0 rfl,
    (shows.hostCamera 1 ⟨1, 1⟩ rfl rfl).2⟩

end CallGate.Session
