import Sst.Shell.AsyncFile

/-!
# The shell protocol

Control messages are embedded in the character data of a shell stream: a marker byte, the length
of the message in base 128, most significant digit first and the last digit flagged, and the
message. A marker in the data is escaped by the length 0.

* `Packet`, `ShellStream`: what `receive` returns, and the receive state.
* `ShellStream.turn`: one turn of the loop of `receive`.
* **`ShellStream.receive`**, `ShellStream.receives`: one call, and repeated calls.
* `sendControl`: the frame of a control message.
-/

namespace Sst.Shell

/-- `ControlMarker`, ASCII `SOH`. -/
def controlMarker : UInt8 := 1

def maxControlMessage : ℕ := 2 ^ 24

/-- `ShellStream::Packet`. -/
inductive Packet
  | null
  | data (data : Bytes)
  | control (data : Bytes)
  deriving DecidableEq

inductive RecvState
  | recvNormal
  | recvLength
  | recvMessage
  deriving DecidableEq

/-- The receive state. `rdat` is the unprocessed end of `rbuf`. Besides the fields of the class:
what the next reads of the stream return, the signals `error`, and whether the stream was reset. -/
structure ShellStream where
  rstate : RecvState
  rbuf : Bytes
  rdat : Bytes
  cbuf : Bytes
  clen : ℕ
  cgot : ℕ
  reads : List Bytes
  errors : List String
  reset : Bool
  deriving DecidableEq

namespace ShellStream

/-- A new stream, from which `reads` will be read. -/
def new (reads : List Bytes) : ShellStream where
  rstate := .recvNormal
  rbuf := []
  rdat := []
  cbuf := []
  clen := 0
  cgot := 0
  reads := reads
  errors := []
  reset := false

/-- Fill the receive buffer if it is empty. -/
def fill (s : ShellStream) : ShellStream :=
  if s.rdat.isEmpty then
    match s.reads with
    | [] => { s with rbuf := [], rdat := [] }
    | chunk :: reads => { s with rbuf := chunk, rdat := chunk, reads := reads }
  else s

/-- `QByteArray::resize`; what it adds is overwritten before it is read. -/
def resize (a : Bytes) (n : ℕ) : Bytes := a.take n ++ List.replicate (n - a.length) 0

/-- Receive normal character data. -/
def turnNormal (s : ShellStream) (ch : UInt8) : Option Packet × ShellStream :=
  if ch = controlMarker then
    (none, { s with rstate := .recvLength, clen := 0, rdat := s.rdat.drop 1 })
  else
    let act := (s.rdat.takeWhile (· ≠ controlMarker)).length
    let ret := if act = s.rbuf.length then s.rbuf else s.rdat.take act
    (some (.data ret), { s with rdat := s.rdat.drop act })

/-- Receive a byte of the length of a control message. -/
def turnLength (s : ShellStream) (ch : UInt8) : Option Packet × ShellStream :=
  if maxControlMessage ≤ s.clen then
    (some .null, { s with errors := "Control message too large" :: s.errors, reset := true })
  else
    let s := { s with
      rdat := s.rdat.drop 1
      clen := s.clen <<< 7 ||| (ch &&& 0x7f).toNat }
    if ch &&& 0x80 ≠ 0 then
      if s.clen = 0 then (some (.data [controlMarker]), s)
      else (none, { s with rstate := .recvMessage, cbuf := resize s.cbuf s.clen, cgot := 0 })
    else (none, s)

/-- Receive control message data. -/
def turnMessage (s : ShellStream) : Option Packet × ShellStream :=
  let act := min s.rdat.length (s.clen - s.cgot)
  let s := { s with
    cbuf := s.cbuf.take s.cgot ++ s.rdat.take act ++ s.cbuf.drop (s.cgot + act)
    rdat := s.rdat.drop act
    cgot := s.cgot + act }
  if s.cgot = s.clen then (some (.control s.cbuf), { s with rstate := .recvNormal, cbuf := [] })
  else (none, s)

/-- One turn of the loop of `receive`: a packet to return, or none to go on. -/
def turn (s : ShellStream) : Option Packet × ShellStream :=
  match s.fill.rdat, s.fill.rstate with
  | [], _ => (some .null, s.fill)
  | ch :: _, .recvNormal => s.fill.turnNormal ch
  | ch :: _, .recvLength => s.fill.turnLength ch
  | _ :: _, .recvMessage => s.fill.turnMessage

/-- The bytes not processed yet. -/
def unread (s : ShellStream) : Bytes := s.rdat ++ s.reads.flatten

/-- The loop of `receive`, for so many turns at most. -/
def receiveLoop : ℕ → ShellStream → Packet × ShellStream
  | 0, s => (.null, s)
  | n + 1, s =>
    match s.turn with
    | (some p, s) => (p, s)
    | (none, s) => receiveLoop n s

/-- **`ShellStream::receive`.** Every turn but the last one processes a byte. -/
def receive (s : ShellStream) : Packet × ShellStream := receiveLoop (s.unread.length + 1) s

/-- Repeated calls. -/
def receives : ℕ → ShellStream → List Packet × ShellStream
  | 0, s => ([], s)
  | n + 1, s => (s.receive.1 :: (receives n s.receive.2).1, (receives n s.receive.2).2)

end ShellStream

/-- The loop of `sendControl`: the digits of `len` are put before `hdr`, which has room for `i`. -/
def hdrLoop : ℕ → ℕ → Bytes → Bytes
  | 0, _, hdr => hdr
  | i + 1, len, hdr =>
    if 0 < len >>> 7 then hdrLoop i (len >>> 7) (.ofNat (len &&& 0x7f) :: hdr)
    else .ofNat (len &&& 0x7f) :: hdr

/-- `ShellStream::sendControl`: what it writes to the stream. -/
def sendControl (msg : Bytes) : Bytes :=
  controlMarker :: (hdrLoop 9 msg.length []).modifyLast (· ||| 0x80) ++ msg

end Sst.Shell
