import CallGate.Bytes.BigEndian
import CallGate.Capability.Basic
import CallGate.Capability.Call
import CallGate.Convention.Argument
import CallGate.Convention.Cursor
import CallGate.Convention.O32
import CallGate.Convention.Return
import CallGate.Convention.Script
import CallGate.Fault
import CallGate.Floating
import CallGate.Input.CameraMode
import CallGate.Input.Source
import CallGate.Log
import CallGate.Machine
import CallGate.Memory.Basic
import CallGate.Memory.Changes
import CallGate.Memory.Pointer
import CallGate.Memory.Reserve
import CallGate.Output.Sink
import CallGate.Registers.Basic
import CallGate.Registers.Field
import CallGate.Scalar
import CallGate.Services.Basic
import CallGate.Services.Native
import CallGate.Session.Basic
import CallGate.Session.Reply
import CallGate.Session.Run
import CallGate.Session.Step
import CallGate.Table
import CallGate.Text.Hex
import CallGate.Proofs.Calls.Camera
import CallGate.Proofs.Calls.Commuting
import CallGate.Proofs.Calls.Dispatch
import CallGate.Proofs.Calls.Effect
import CallGate.Proofs.Calls.Faults
import CallGate.Proofs.Calls.Frame
import CallGate.Proofs.Calls.NativeForm
import CallGate.Proofs.Calls.Pieces
import CallGate.Proofs.Calls.Text
import CallGate.Proofs.Convention.Decoding
import CallGate.Proofs.Convention.Layout
import CallGate.Proofs.Convention.Places
import CallGate.Proofs.Convention.Returning
import CallGate.Proofs.Convention.Staging
import CallGate.Proofs.Floating.Comparison
import CallGate.Proofs.Input.Controller
import CallGate.Proofs.Input.Normalization
import CallGate.Proofs.Limits.Calls
import CallGate.Proofs.Limits.Cursor
import CallGate.Proofs.Memory.Access
import CallGate.Proofs.Memory.Bounds
import CallGate.Proofs.Memory.Codec
import CallGate.Proofs.Memory.Edits
import CallGate.Proofs.Memory.Reserve
import CallGate.Proofs.Registers.Stores
import CallGate.Proofs.Services.Alike
import CallGate.Proofs.Services.Capturing
import CallGate.Proofs.Services.Emission
import CallGate.Proofs.Services.Steady
import CallGate.Proofs.Session.Alike
import CallGate.Proofs.Session.Canonical
import CallGate.Proofs.Session.Dispatch
import CallGate.Proofs.Session.Guest
import CallGate.Proofs.Session.Image
import CallGate.Proofs.Session.Installed
import CallGate.Proofs.Session.Parts
import CallGate.Proofs.Session.Polls
import CallGate.Proofs.Session.Registers
import CallGate.Proofs.Session.Requests
import CallGate.Proofs.Session.Serving
import CallGate.Proofs.Session.SinkFailures
import CallGate.Proofs.Session.Text
