import DriveWire.Server.Handlers

/-! # Attach Sessions and Direct Calls

    The tasks behind one attach connection (the listener's task, and the two
    that `handle_attach` spawns), and a task that calls the host-side vserial
    functions directly. -/

namespace DriveWire

open Async

/-- What a finished task returned. -/
inductive Exit where
  | session : ServerError → Exit
  | control : Except IoError Unit → Exit
  | closed  : Exit

/-- The channel an outbound task reads. -/
def Tid.reads : Tid → Option Channel
  | .attachOut _ channel =>
    if h : channel.toNat < vserialChannels then some ⟨channel.toNat, h⟩ else none
  | _ => none

namespace Server

variable {D : Type}

/-- One iteration of the `inbound` task of `handle_attach`. -/
def inboundOnce (channel : UInt8) : Code D (Flow Exit) := do
  match ← await (.io (.read 1024)) with
  -- end of the stream
  | .ok [] => return .done .closed
  | .ok buf =>
    sendToVserial channel buf
    return .again
  | .error _ => return .done .closed

/-- One iteration of the `outbound` task of `handle_attach`. -/
def outboundOnce (channel : UInt8) : Code D (Flow Exit) := do
  match ← drainVserial channel with
  | [] =>
    -- the guard of the inbox is released when the task parks
    waitVserialInbox channel
    return .again
  -- the bytes have left the inbox when they are written
  | bytes =>
    match ← await (.io (.writeAll bytes)) with
    | .ok () => return .again
    | .error _ => return .done .closed

/-- `handle_attach` of the `n`th attach connection.  `select!` returns when
    one of the tasks has exited, and drops the handle of the other. -/
def handleAttach (n : Nat) (channel : UInt8) : Code D Unit := do
  await (.spawn (.attachIn n channel))
  await (.spawn (.attachOut n channel))
  await (.select (.attachIn n channel) (.attachOut n channel))

/-- The task that `run_attach_listener` spawns for a connection. -/
def attachSession (n : Nat) : Code D (Flow Exit) := do
  match ← await (.io (.readExact 1)) with
  | .ok chByte =>
    handleAttach n (byte0 chByte)
    return .done .closed
  | .error _ => return .done .closed

/-- A host program that calls the vserial functions of the library. -/
def apiCall : Code D (Flow Exit) := do
  match ← await (.io .nextCall) with
  | .drainVserial channel =>
    let _bytes ← drainVserial channel
    return .again
  | .sendToVserial channel bytes =>
    sendToVserial channel bytes
    return .again
  | .vserialOutboxLen channel =>
    let _len ← vserialOutboxLen channel
    return .again
  | .isChannelOpen channel =>
    let _open ← isChannelOpen channel
    return .again

end Server

end DriveWire
