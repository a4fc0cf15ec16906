import PdfCanvas.Content.Drawing

/-!
# Content streams

A content stream carries out drawing calls on a sink, one after the other. It can be closed outside text
objects only.
-/

namespace PdfCanvas

namespace ContentStream

/-- A content stream that nothing is written to yet. -/
def start (sink : Sink) (resources : Resources) (subsets : Subsets) (places : Nat) :
    ContentStream :=
  ⟨⟨.initial, resources, subsets⟩, sink, places⟩

/-- Carries out a call. -/
def perform (c : ContentStream) (call : Call) : Except Error Unit × ContentStream :=
  (Drawing.ofCall call).exec c

/-- Carries out calls one after the other, whatever becomes of each. -/
def performAll (c : ContentStream) : List Call → ContentStream
  | [] => c
  | call :: rest => (c.perform call).2.performAll rest

/-- Ends the stream, which must not be inside a text object. -/
def close (c : ContentStream) : Except Error Bytes := do
  if c.state.graphics.inText then throw (.sequence .textLeftOpen)
  c.sink.flush
  return c.sink.written

end ContentStream

end PdfCanvas
