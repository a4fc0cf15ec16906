import PdfCanvas.Operand

/-!
# Sinks

A sink takes bytes until its capacity is reached. A write that does not fit leaves the bytes that do
and fails, so what a sink holds is always a prefix of what was offered.
-/

namespace PdfCanvas

/-- A place that bytes are written to. -/
structure Sink where
  /-- The number of bytes taken in all; no limit if there is none. -/
  capacity : Option Nat
  refusesFlush : Bool
  written : Bytes

namespace Sink

/-- A sink that takes everything. -/
def unlimited : Sink := ⟨none, false, []⟩

/-- The part of the bytes offered that still fits. -/
def accepted (s : Sink) (bytes : Bytes) : Bytes :=
  match s.capacity with
  | none => bytes
  | some capacity => bytes.take (capacity - s.written.length)

/-- Stores the bytes that fit; fails if some do not. -/
def write (s : Sink) (bytes : Bytes) : Except Error Unit × Sink :=
  let stored := s.accepted bytes
  (if stored.length = bytes.length then .ok () else .error (.write .full),
    { s with written := s.written ++ stored })

def flush (s : Sink) : Except Error Unit :=
  if s.refusesFlush then .error (.write .flushRefused) else .ok ()

end Sink

/-- What can be asked of a token writer. -/
inductive Output where
  | reals (values : List Single)
  | operand (value : Operand)
  | keyword (text : String)
  | verbatim (bytes : Bytes)
  | flush

namespace Output

/-- The bytes of an output; none are written unless all reals are finite. -/
def bytes (places : Nat) : Output → Except Error Bytes
  | .reals values => do
    let numerals ← Operand.numerals places values
    return numerals.flatMap Operand.numeralBytes
  | .operand value => .ok value.bytes
  | .keyword text => .ok (utf8 text ++ [0x0A])
  | .verbatim bytes => .ok bytes
  | .flush => .ok []

/-- Writes an output to a sink. -/
def perform (places : Nat) (output : Output) (sink : Sink) : Except Error Unit × Sink :=
  match output with
  | .flush => (sink.flush, sink)
  | _ =>
    match output.bytes places with
    | .ok bytes => sink.write bytes
    | .error e => (.error e, sink)

end Output

end PdfCanvas
