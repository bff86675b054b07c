import Leelo.Collector.Deduplication
import Leelo.Telemetry.Encoding
import Mathlib.Data.List.DropRight

/-!
# Event log of the collector

Every accepted event is appended to the current log as one line. A log that would grow too
large becomes the previous one. On start the collector cuts off what follows the last line
break of a log and accepts the events of the previous and then of the current log again.
A history is any sequence of starts, events and crashes in which every append succeeds and
no log is discarded.
-/

namespace Leelo.Collector

open Leelo.Core Leelo.Core.Json Leelo.Telemetry

/-- The size at which the log is rotated. -/
def logLimit : Nat := 16 * 1024 * 1024

/-- The length that a log may have when it is opened. -/
def openLimit : Nat := logLimit + 8192

/-- The longest line that is replayed. -/
def lineLimit : Nat := maxEventBytes + 1024

/-- The JSON library: how it prints a double and reads an event. -/
structure Codec where
  printDouble : F64 → Bytes
  decode : Bytes → Option Received

/-- A received event as a line of the log. -/
def Received.encode (codec : Codec) (received : Received) : Bytes :=
  object
    [("source_uid", decimal received.sourceUid.toNat),
     ("source_pid", decimal received.sourcePid.toNat),
     ("received_at_ms", decimal received.receivedAtMs.toNat),
     ("record", received.record.encode codec.printDouble)]

/-- The library prints the duration in at most 24 bytes of one line and reads the event back. -/
structure Codec.Handles (codec : Codec) (received : Received) : Prop where
  double : Fits 24 (codec.printDouble received.record.durationSeconds)
  decode_encode : codec.decode (received.encode codec) = some received

/-- The log and the one before it. -/
structure Disk where
  previous : Option Bytes
  current : Option Bytes

/-- The changes of the log on the disk. -/
inductive DiskOp where
  | truncatePrevious (length : Nat)
  | truncateCurrent (length : Nat)
  | rename
  | openLog
  | append (bytes : Bytes)

/-- What a successful operation does. A rename that would discard a log is left out. -/
inductive DiskOp.Applies : DiskOp → Disk → Disk → Prop
  | truncatePrevious (length : Nat) (disk : Disk) :
      Applies (.truncatePrevious length) disk
        { disk with previous := disk.previous.map (·.take length) }
  | truncateCurrent (length : Nat) (disk : Disk) :
      Applies (.truncateCurrent length) disk
        { disk with current := disk.current.map (·.take length) }
  | rename (current : Bytes) : Applies .rename ⟨none, some current⟩ ⟨some current, none⟩
  | openLog (disk : Disk) : Applies .openLog disk { disk with current := disk.current.getD [] }
  | append (bytes current : Bytes) (previous : Option Bytes) :
      Applies (.append bytes) ⟨previous, some current⟩ ⟨previous, some (current ++ bytes)⟩

/-- Operations that are performed one after another. -/
inductive Performs : List DiskOp → Disk → Disk → Prop
  | nil (disk : Disk) : Performs [] disk disk
  | cons {op : DiskOp} {ops : List DiskOp} {disk mid disk' : Disk} (hop : op.Applies disk mid)
      (hops : Performs ops mid disk') : Performs (op :: ops) disk disk'

/-- A crash stops some operations before an operation or in the middle of an append. -/
inductive Stops : List DiskOp → Disk → Disk → Prop
  | before (op : DiskOp) (ops : List DiskOp) (disk : Disk) : Stops (op :: ops) disk disk
  | during {bytes part : Bytes} {disk disk' : Disk} (hpart : part <+: bytes) (hne : part ≠ bytes)
      (hop : (DiskOp.append part).Applies disk disk') (ops : List DiskOp) :
      Stops (.append bytes :: ops) disk disk'
  | after {op : DiskOp} {ops : List DiskOp} {disk mid disk' : Disk} (hop : op.Applies disk mid)
      (hops : Stops ops mid disk') : Stops (op :: ops) disk disk'

/-- A log that does not end with a line break. -/
def torn (bytes : Bytes) : Bool := !bytes.isEmpty && bytes.getLast? != some newline

/-- The log up to its last line break. -/
def complete (bytes : Bytes) : Bytes := bytes.rdropWhile (· ≠ newline)

/-- The lines that are read as events. -/
def eventLines (bytes : Bytes) : List Bytes := (bytes.splitOn newline).filter (· ≠ [])

/-- Replays one line. -/
def replayLine (codec : Codec) (m : Metrics) (line : Bytes) : Metrics :=
  if line.length > lineLimit then m.reject
  else
    match codec.decode line with
    | some received => (m.accept received).1
    | none => m.reject

/-- Replays a file of the log. -/
def replay (codec : Codec) (content : Option Bytes) (m : Metrics) : Except String Metrics :=
  match content with
  | none => .ok m
  | some bytes =>
    if bytes.length > openLimit then .error "invalid local event log"
    else
      let m := if torn bytes then m.reject else m
      .ok ((eventLines (complete bytes)).foldl (replayLine codec) m)

/-- The length to which a log is cut. -/
def repair (content : Option Bytes) : Option Nat :=
  content.bind fun bytes => if torn bytes then some (complete bytes).length else none

/-- The collector after its start. -/
structure Live where
  metrics : Metrics
  logSize : Nat

/-- Replay both logs and open the current one; the operations on the files come with it. -/
def restart (codec : Codec) (disk : Disk) : Except String (Live × List DiskOp) := do
  let m ← replay codec disk.previous .new
  let m ← replay codec disk.current m
  return (⟨m, (complete (disk.current.getD [])).length⟩,
    (repair disk.previous).toList.map .truncatePrevious ++
      (repair disk.current).toList.map .truncateCurrent ++ [.openLog])

namespace Live

/-- The line an event is appended as. -/
def line (codec : Codec) (received : Received) : Bytes := received.encode codec ++ [newline]

/-- Whether the log is rotated before the event is appended. -/
def rotates (live : Live) (codec : Codec) (received : Received) : Bool :=
  live.logSize + (line codec received).length > logLimit

/-- The size of the log to which the line is appended. -/
def sizeBefore (live : Live) (codec : Codec) (received : Received) : Nat :=
  if live.rotates codec received then 0 else live.logSize

/-- The rotation, where there is one. -/
def rotation (live : Live) (codec : Codec) (received : Received) : List DiskOp :=
  if live.rotates codec received then [.rename, .openLog] else []

/-- An event that was received: its operations on the files and the collector after them. -/
def handle (live : Live) (codec : Codec) (received : Received) : Live × List DiskOp :=
  let (metrics, accepted) := live.metrics.accept received
  if accepted then
    (⟨metrics, live.sizeBefore codec received + (line codec received).length⟩,
      live.rotation codec received ++ [.append (line codec received)])
  else ({ live with metrics }, [])

/-- The append failed: cut the log back. -/
def fail (live : Live) (codec : Codec) (received : Received) : Live × List DiskOp :=
  let metrics := (live.metrics.accept received).1
  (⟨{ metrics with writeFailures := saturatingAdd metrics.writeFailures 1 },
    live.sizeBefore codec received⟩, [.truncateCurrent (live.sizeBefore codec received)])

end Live

/-- The files, the collector if it runs, the events whose lines were completely written and the
metrics after the last of them. -/
inductive History (codec : Codec) : Disk → Option Live → List Received → Metrics → Prop
  | fresh : History codec ⟨none, none⟩ none [] .new
  | start {disk disk' : Disk} {written : List Received} {last : Metrics} {live : Live}
      {ops : List DiskOp} (h : History codec disk none written last)
      (hrestart : restart codec disk = .ok (live, ops)) (hops : Performs ops disk disk') :
      History codec disk' (some live) written last
  | startCut {disk disk' : Disk} {written : List Received} {last : Metrics} {live : Live}
      {ops : List DiskOp} (h : History codec disk none written last)
      (hrestart : restart codec disk = .ok (live, ops)) (hops : Stops ops disk disk') :
      History codec disk' none written last
  | malformed {disk : Disk} {written : List Received} {last : Metrics} {live : Live}
      (h : History codec disk (some live) written last) :
      History codec disk (some { live with metrics := live.metrics.reject }) written last
  | exportFailed {disk : Disk} {written : List Received} {last : Metrics} {live : Live}
      (h : History codec disk (some live) written last) :
      History codec disk (some { live with metrics :=
        { live.metrics with
          writeFailures := saturatingAdd live.metrics.writeFailures 1 } }) written last
  | refused {disk : Disk} {written : List Received} {last : Metrics} {live : Live}
      (h : History codec disk (some live) written last) (received : Received)
      (hrefused : (live.metrics.accept received).2 = false) :
      History codec disk (some (live.handle codec received).1) written last
  | written {disk disk' : Disk} {written : List Received} {last : Metrics} {live : Live}
      (h : History codec disk (some live) written last) {received : Received}
      (haccepted : (live.metrics.accept received).2 = true) (hcodec : codec.Handles received)
      (hops : Performs (live.handle codec received).2 disk disk') :
      History codec disk' (some (live.handle codec received).1) (written ++ [received])
        (live.handle codec received).1.metrics
  | eventCut {disk disk' : Disk} {written : List Received} {last : Metrics} {live : Live}
      (h : History codec disk (some live) written last) {received : Received}
      (hcodec : codec.Handles received)
      (hops : Stops (live.handle codec received).2 disk disk') :
      History codec disk' none written last
  | failed {disk mid cut disk' : Disk} {written : List Received} {last : Metrics} {live : Live}
      (h : History codec disk (some live) written last) {received : Received} {part : Bytes}
      (haccepted : (live.metrics.accept received).2 = true) (hcodec : codec.Handles received)
      (hrotation : Performs (live.rotation codec received) disk mid)
      (hpart : part <+: Live.line codec received) (hne : part ≠ Live.line codec received)
      (happend : (DiskOp.append part).Applies mid cut)
      (hback : Performs (live.fail codec received).2 cut disk') :
      History codec disk' none written last
  | kill {disk : Disk} {written : List Received} {last : Metrics} {live : Live}
      (h : History codec disk (some live) written last) : History codec disk none written last

end Leelo.Collector
