import Tabletop.Stream.Sink
import Tabletop.Stream.Source

/-!
Feeding the lines of a source, one after the other, to something that answers each with output.
What a line changes is kept even if writing its output fails.
-/

namespace Tabletop

/-- What ends a feed before its time. -/
inductive Failure where
  | read (line : Nat) (fault : ReadFault)
  | write (fault : WriteFault)
  deriving DecidableEq

def Failure.message : Failure → String
  | read line fault => "failed to read input at line " ++ toString line ++ ": " ++ fault.message
  | write fault => "failed to write output: " ++ fault.message

/-- The answer to one line: the next state, what to print, and whether to read on. -/
structure Reply (σ : Type) where
  state : σ
  emissions : List Emission
  stop : Bool := false

/-- How a feed ended, and the channels that were flushed, in order. -/
structure Ending (σ : Type) where
  state : σ
  ports : Ports
  failure? : Option Failure
  flushes : List Channel := []

variable {σ : Type}

/-- The ending when no more lines are wanted: both sinks are flushed. -/
def Ending.flushed (state : σ) (ports : Ports) : Ending σ :=
  { state, ports, failure? := ports.flush?.map .write, flushes := ports.flush.1 }

/-- The ending at a failure, which leaves both sinks as they are. -/
def Ending.failed (state : σ) (ports : Ports) (failure : Failure) : Ending σ :=
  { state, ports, failure? := some failure }

/-- Answers lines in order, the first of them numbered `n`, until they end, one of them cannot be
read, its output cannot be written, or the answer is to stop. -/
def feed (respond : Nat → String → σ → Reply σ) (n : Nat) :
    List (Except ReadFault String) → σ → Ports → Ending σ
  | [], state, ports => .flushed state ports
  | .error fault :: _, state, ports => .failed state ports (.read n fault)
  | .ok line :: rest, state, ports =>
    let reply := respond n line state
    match ports.printAll reply.emissions with
    | (ports, some fault) => .failed reply.state ports (.write fault)
    | (ports, none) =>
      if reply.stop then .flushed reply.state ports
      else feed respond (n + 1) rest reply.state ports

end Tabletop
