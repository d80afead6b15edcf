import Tabletop.Stream.Bytes

/-!
The two places a session writes to: `out` for reports and `diag` for everything said about the
input. Either may take only so many bytes or fail when flushed.
-/

namespace Tabletop

/-- Why writing failed. -/
inductive WriteFault where
  | full
  | flush
  deriving DecidableEq

def WriteFault.message : WriteFault → String
  | full => "sink full"
  | flush => "flush failed"

/-- A place that keeps the bytes written to it, at most `capacity` of them if there is a limit. -/
structure Sink where
  capacity : Option Nat := none
  failsFlush : Bool := false
  received : Array UInt8 := #[]

namespace Sink

/-- The bytes written so far. -/
def bytes (s : Sink) : Bytes :=
  s.received.toList

/-- As many of the bytes as there is still room for. -/
def fitting (s : Sink) (bs : Bytes) : Bytes :=
  match s.capacity with
  | none => bs
  | some n => bs.take (n - s.received.size)

/-- Writes as many of the bytes as fit; it is a fault if that is not all of them. -/
def write (s : Sink) (bs : Bytes) : Sink × Option WriteFault :=
  let part := s.fitting bs
  ({ s with received := s.received ++ part }, if part.length = bs.length then none else some .full)

/-- The fault of a flush, if it fails. -/
def flush? (s : Sink) : Option WriteFault :=
  if s.failsFlush then some .flush else none

@[simp] theorem bytes_write (s : Sink) (bs : Bytes) :
    (s.write bs).1.bytes = s.bytes ++ s.fitting bs := by
  simp [write, bytes]

theorem fitting_isPrefix (s : Sink) (bs : Bytes) : s.fitting bs <+: bs := by
  unfold fitting
  split
  · exact List.prefix_refl bs
  · exact List.take_prefix _ bs

/-- A write without a fault has kept every byte. -/
theorem write_eq_none_iff {s : Sink} {bs : Bytes} :
    (s.write bs).2 = none ↔ s.fitting bs = bs := by
  have h : (s.write bs).2 = none ↔ (s.fitting bs).length = bs.length := by simp [write]
  rw [h]
  exact ⟨(fitting_isPrefix s bs).eq_of_length, congrArg List.length⟩

end Sink

inductive Channel where
  | out
  | diag
  deriving DecidableEq

/-- A text bound for a channel, to be written with a line feed after it. -/
structure Emission where
  channel : Channel
  text : String
  deriving DecidableEq

def Emission.bytes (e : Emission) : Bytes :=
  Bytes.ofText (e.text ++ "\n")

structure Ports where
  out : Sink := {}
  diag : Sink := {}

namespace Ports

/-- Writes one emission to its channel. -/
def print (p : Ports) (e : Emission) : Ports × Option WriteFault :=
  match e.channel with
  | .out =>
    let (out, fault) := p.out.write e.bytes
    ({ p with out }, fault)
  | .diag =>
    let (diag, fault) := p.diag.write e.bytes
    ({ p with diag }, fault)

/-- Writes emissions in order up to the first fault. -/
def printAll (p : Ports) : List Emission → Ports × Option WriteFault
  | [] => (p, none)
  | e :: es =>
    match p.print e with
    | (p, some fault) => (p, some fault)
    | (p, none) => p.printAll es

/-- Flushes `out` and then `diag`, which is left alone if the first flush fails. Tells which of them
it came to, in order, and the fault. -/
def flush (p : Ports) : List Channel × Option WriteFault :=
  match p.out.flush? with
  | some fault => ([.out], some fault)
  | none => ([.out, .diag], p.diag.flush?)

/-- The fault of flushing both sinks, if one of them fails. -/
def flush? (p : Ports) : Option WriteFault :=
  p.flush.2

end Ports

end Tabletop
