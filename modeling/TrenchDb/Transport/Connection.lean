import TrenchDb.Transport.Frame

/-!
# Connections

`transport/src/tcp/connection.rs`. Reads are scripted: a `read_buf` call takes the
next entry of a list. Writes go to a socket that may be told to fail.
-/

namespace TrenchDb.Transport

/-! ## The underlying stream -/

/-- A failing write: how many of the offered bytes it takes, and the error. -/
structure WriteFault where
  taken : Nat
  error : String
  deriving DecidableEq, Repr

/-- The write side of the stream: the bytes it has taken so far, and how the coming
`write_all` and `flush` calls go. Past the end of the list they succeed. -/
structure Socket where
  written : List UInt8
  faults : List (Option WriteFault)
  deriving DecidableEq, Repr

namespace Socket

def writeAll (s : Socket) (bytes : List UInt8) : Except String Unit × Socket :=
  match s.faults with
  | some fault :: rest =>
    (.error fault.error, { written := s.written ++ bytes.take fault.taken, faults := rest })
  | faults => (.ok (), { written := s.written ++ bytes, faults := faults.tail })

def flush (s : Socket) : Except String Unit × Socket :=
  match s.faults with
  | some fault :: rest => (.error fault.error, { s with faults := rest })
  | faults => (.ok (), { s with faults := faults.tail })

end Socket

/-- One `read_buf` call: the bytes it appended, none at the end of the stream, or an I/O error. -/
abbrev Read := Except String (List UInt8)

/-! ## The connection -/

def MAX_BUFFER_SIZE : Nat := 256 * 1024
def MAX_READ_BUFFER_SIZE : Nat := MAX_FRAME_SIZE + HEADER_SIZE

structure Connection where
  stream : Socket
  readBuffer : List UInt8
  writeBuffer : List UInt8
  deriving DecidableEq, Repr

namespace Connection

def new (stream : Socket) : Connection := { stream, readBuffer := [], writeBuffer := [] }

def bufferFrame (c : Connection) (frame : Frame) : Outcome Connection Unit :=
  match encode frame with
  | .error e => (.error e, c)
  | .ok bytes =>
    if MAX_BUFFER_SIZE < c.writeBuffer.length + bytes.length then
      (.error .BufferOverflow, c)
    else
      (.ok (), { c with writeBuffer := c.writeBuffer ++ bytes })

def flush (c : Connection) : Outcome Connection Unit :=
  if c.writeBuffer.isEmpty then
    (.ok (), c)
  else
    match c.stream.writeAll c.writeBuffer with
    | (.error e, stream) => (.error (.Io e), { c with stream })
    | (.ok (), stream) =>
      match stream.flush with
      | (.error e, stream) => (.error (.Io e), { c with stream, writeBuffer := [] })
      | (.ok (), stream) => (.ok (), { c with stream, writeBuffer := [] })

def sendFrame (c : Connection) (frame : Frame) : Outcome Connection Unit :=
  (c.bufferFrame frame).andThen fun _ c => c.flush

/-- `recv_frame` on the scripted reads: its result, `none` while it waits for a read past
the end of the script, and the reads it has not used. -/
def recvFrame : Connection → List Read → Option (Except TransportError Frame) × Connection × List Read
  | c, reads =>
    match decode c.readBuffer with
    | .ok (frame, consumed) =>
      (some (.ok frame), { c with readBuffer := c.readBuffer.drop consumed }, reads)
    | .error .NeedMoreData =>
      if MAX_READ_BUFFER_SIZE ≤ c.readBuffer.length then
        (some (.error (.FrameTooLarge c.readBuffer.length MAX_FRAME_SIZE)), c, reads)
      else
        match reads with
        | [] => (none, c, [])
        | .error e :: reads => (some (.error (.Io e)), c, reads)
        | .ok [] :: reads => (some (.error .ConnectionClosed), c, reads)
        | .ok bytes :: reads => recvFrame { c with readBuffer := c.readBuffer ++ bytes } reads
    | .error e => (some (.error e), c, reads)

end Connection

end TrenchDb.Transport
