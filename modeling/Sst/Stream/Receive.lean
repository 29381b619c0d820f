import Sst.Lib.Word
import Sst.Lib.Search
import Sst.Lib.Transition

/-!
# The receive side of a stream

The receive part of `BaseStream`: `rxData` puts segments in order, `readData` and `readMessage`
take them out, `shutdown` ends the stream for reading.

* `RxSegment`: a segment, with the bytes merged into its header.
* `RxStream`: the byte-stream receive state.
* `RxStream.rxData`, `readData`, `readMessage`: the operations.
* `rxMachine`: the runs of the receive side of one stream.

The counters are `qint32`; `wrap 32` stands for the assignment to them. A failed assertion about
a read whose buffer is smaller than the next segment, or that finds no segment, stops the run; the
other assertions have no effect.
-/

namespace Sst

open Word

/-- The signal flags of a data segment. -/
structure Flags where
  push : Bool
  message : Bool
  close : Bool
  deriving DecidableEq

/-- Some flag is set. -/
def Flags.any (f : Flags) : Bool := f.push || f.message || f.close

/-- The segment ends a message. -/
def Flags.marks (f : Flags) : Bool := f.message || f.close

/-- `RxSegment`; `buf` is the packet after its fixed header, and `hdrlen` counts the bytes of `buf`
that were merged into the header. -/
structure RxSegment where
  rsn : ℤ
  flags : Flags
  buf : List UInt8
  hdrlen : ℕ
  deriving DecidableEq

namespace RxSegment

def segmentSize (seg : RxSegment) : ℤ := seg.buf.length - seg.hdrlen

/-- The bytes of the segment after its header. -/
def payload (seg : RxSegment) : List UInt8 := seg.buf.drop seg.hdrlen

end RxSegment

/-- What one read removed: the bytes returned, and those dropped behind a full buffer. -/
structure ReadRecord where
  maxSize : ℕ
  returned : List UInt8
  dropped : List UInt8

/-- The byte-stream receive state; `connected` is `state == Connected`, and `reads` records the
reads, the earliest first. -/
structure RxStream where
  connected : Bool
  endread : Bool
  rsn : ℤ
  ravail : ℤ
  rmsgavail : ℤ
  rbufused : ℤ
  rahead : List RxSegment
  rsegs : List RxSegment
  rmsgsize : List ℤ
  reads : List ReadRecord

namespace RxStream

/-- The constructor. -/
def new (connected : Bool) : RxStream := ⟨connected, false, 0, 0, 0, 0, [], [], [], []⟩

/-- `atEnd`. -/
def atEnd (s : RxStream) : Bool := s.endread

/-- `shutdown(Stream::Read)`. -/
def shutdownRead (s : RxStream) : RxStream :=
  if s.connected && !s.endread then
    { s with
      ravail := 0, rmsgavail := 0, rbufused := 0, rahead := [], rsegs := [], rmsgsize := []
      endread := true }
  else s

/-! ## Reception -/

/-- The signed distance of a segment from the receive point. -/
def rsnDiff (s : RxStream) (seg : RxSegment) : ℤ := wrap 32 (seg.rsn - s.rsn)

/-- The new bytes of a segment at or before the receive point. -/
def actSize (s : RxStream) (seg : RxSegment) : ℤ := seg.segmentSize + s.rsnDiff seg

/-- The segment ends before the receive point, or at it without flags. -/
def outOfDate (s : RxStream) (seg : RxSegment) : Bool :=
  s.actSize seg < 0 || (s.actSize seg = 0 && !seg.flags.any)

/-- Queue a segment at or before the receive point and account for its new bytes. -/
def consume (s : RxStream) (seg : RxSegment) : RxStream :=
  let actsize := s.actSize seg
  let rmsgavail := wrap 32 (s.rmsgavail + actsize)
  let marked := seg.flags.marks && decide (0 < rmsgavail)
  { s with
    rsegs := s.rsegs ++ [{ seg with hdrlen := seg.hdrlen + (-s.rsnDiff seg).toNat }]
    rsn := wrap 32 (s.rsn + actsize)
    ravail := wrap 32 (s.ravail + actsize)
    rmsgavail := if marked then 0 else rmsgavail
    rbufused := wrap 32 (s.rbufused + actsize)
    rmsgsize := if marked then s.rmsgsize ++ [rmsgavail] else s.rmsgsize }

/-- Pull what follows the receive point from the reorder buffer; `closed` is set once a segment
with the close flag was queued. -/
def pull : List RxSegment → RxStream → Bool → RxStream × Bool
  | [], s, closed => ({ s with rahead := [] }, closed)
  | seg :: rahead, s, closed =>
    if 0 < s.rsnDiff seg then ({ s with rahead := seg :: rahead }, closed)
    else
      let s := { s with rbufused := wrap 32 (s.rbufused - seg.segmentSize) }
      if s.outOfDate seg then pull rahead s closed
      else pull rahead (s.consume seg) (closed || seg.flags.close)

/-- The segment at index `i` of the reorder buffer lies before the distance `rsndiff`. -/
def liesBefore (s : RxStream) (rsndiff : ℤ) (i : ℕ) : Bool :=
  (s.rahead[i]?).any fun seg => s.rsnDiff seg < rsndiff

/-- The index at which a segment enters the reorder buffer. -/
def parkIndex (s : RxStream) (rsndiff : ℤ) : ℕ :=
  let hi := s.rahead.length
  if 0 < hi && s.liesBefore rsndiff (hi - 1) then hi
  else Search.lowerBound (s.liesBefore rsndiff) 0 hi

/-- The reorder buffer holds the segment already, with as much data and the same flags. -/
def isDuplicate (s : RxStream) (seg : RxSegment) (i : ℕ) : Bool :=
  (s.rahead[i]?).any fun old =>
    old.rsn = seg.rsn && decide (seg.segmentSize ≤ old.segmentSize) && seg.flags = old.flags

/-- Stash a segment beyond the receive point in the reorder buffer. -/
def park (s : RxStream) (seg : RxSegment) : RxStream :=
  let lo := s.parkIndex (s.rsnDiff seg)
  if s.isDuplicate seg lo then s
  else { s with
    rbufused := wrap 32 (s.rbufused + seg.segmentSize)
    rahead := s.rahead.take lo ++ seg :: s.rahead.drop lo }

/-- `BaseStream::rxData`. -/
def rxData (s : RxStream) (seg : RxSegment) : RxStream :=
  if s.endread then s
  else if 0 < s.rsnDiff seg then s.park seg
  else if s.outOfDate seg then s
  else
    let (t, closed) := pull s.rahead (s.consume seg) seg.flags.close
    if closed && t.ravail = 0 then t.shutdownRead else t

/-! ## Reading -/

/-- The accounting of a read of `size` bytes, and whether it stops at a message boundary. -/
def account (s : RxStream) (size : ℤ) : RxStream × Bool :=
  let s := { s with ravail := wrap 32 (s.ravail - size), rbufused := wrap 32 (s.rbufused - size) }
  match s.rmsgsize with
  | [] => ({ s with rmsgavail := wrap 32 (s.rmsgavail - size) }, false)
  | headsize :: sizes =>
    if headsize - size = 0 then ({ s with rmsgsize := sizes }, true)
    else ({ s with rmsgsize := (headsize - size) :: sizes }, false)

/-- The loop of `readData` over the queued segments `rsegs`; the bytes it removed. -/
def readLoop : List RxSegment → RxStream → ℕ → List UInt8 → Option (RxStream × List UInt8)
  | rsegs, s, maxSize, data =>
    if maxSize = 0 || s.ravail ≤ 0 then some ({ s with rsegs := rsegs }, data)
    else match rsegs with
      | [] => none
      | rseg :: rsegs =>
        if maxSize < rseg.segmentSize then none
        else
          let (s, boundary) := s.account rseg.segmentSize
          if boundary then some ({ s with rsegs := rsegs }, data ++ rseg.payload)
          else if rseg.flags.close && s.connected && !s.endread then
            some (s.shutdownRead, data ++ rseg.payload)
          else readLoop rsegs s (maxSize - rseg.segmentSize.toNat) (data ++ rseg.payload)

/-- `BaseStream::readData`, without the record of the read. -/
def takeData (s : RxStream) (maxSize : ℕ) : Option (RxStream × List UInt8) :=
  readLoop s.rsegs s maxSize []

/-- Add a read to the record. -/
def record (s : RxStream) (r : ReadRecord) : RxStream := { s with reads := s.reads ++ [r] }

/-- `BaseStream::readData`. -/
def readData (s : RxStream) (maxSize : ℕ) : Option RxStream :=
  (s.takeData maxSize).map fun (t, data) => t.record ⟨maxSize, data, []⟩

/-- `BaseStream::readMessage`: the rest of a message longer than the buffer is dropped. -/
def readMessage (s : RxStream) (maxSize : ℕ) : Option RxStream :=
  if s.rmsgsize = [] then some s
  else (s.takeData maxSize).bind fun (t, data) =>
    if t.rmsgsize.length = s.rmsgsize.length then
      (t.takeData (2 ^ 30)).map fun (u, rest) => u.record ⟨maxSize, data, rest⟩
    else some (t.record ⟨maxSize, data, []⟩)

/-! ## Operations -/

/-- What happens to the receive side of a stream. -/
inductive Op
  | rxData (seg : RxSegment)
  | readData (maxSize : ℕ)
  | readMessage (maxSize : ℕ)

def step (s : RxStream) : Op → Option RxStream
  | .rxData seg => some (s.rxData seg)
  | .readData maxSize => s.readData maxSize
  | .readMessage maxSize => s.readMessage maxSize

/-- The bytes that reads removed. -/
def removed (s : RxStream) : List UInt8 := s.reads.flatMap fun r => r.returned ++ r.dropped

/-- The bytes of the queued segments. -/
def queued (s : RxStream) : List UInt8 := s.rsegs.flatMap RxSegment.payload

/-- The bytes received in order so far. -/
def consumed (s : RxStream) : List UInt8 := s.removed ++ s.queued

end RxStream

/-- The runs of the receive side of a stream. -/
def rxMachine (connected : Bool) : Transition.Machine RxStream RxStream.Op where
  init := .new connected
  step := RxStream.step

end Sst
