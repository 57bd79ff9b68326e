import CallGate.Services.Basic

/-! The capabilities in their native form: plain arguments and results, no guest involved. -/

namespace CallGate.Services

def itemInputs (s : Services) (host : Host) : UInt32 × Services := s.pollButtons host.input

def cameraInputs (s : Services) (host : Host) : Axes × Services := s.pollAxes host.input

/-- Emits the first `size` bytes of `data`, or all of it if there are fewer. A refused write drops the
text; an empty one never reaches the sink. -/
def puts (s : Services) (host : Host) (data : ByteArray) (size : UInt32) : Services :=
  let s := if size.toNat > data.size then s.log (.truncated data.size size.toNat) else s
  let emitted := data.extract 0 (min size.toNat data.size)
  if emitted.size = 0 then s
  else match s.write host.sink emitted with
    | (.ok _, s) => s
    | (.error reason, s) => s.log (.dropped emitted.size reason)

end CallGate.Services
