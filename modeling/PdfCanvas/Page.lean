import PdfCanvas.Content
import PdfCanvas.Filter
import PdfCanvas.Filter.Deflate

/-!
# Pages

The content of a page is one stream or an array of streams that are read one after the other. A drawing
session puts a new stream in the place of the content or after it. With `resetContext` the content before
is put between `q` and `Q`, so that nothing it does to the graphics state reaches the new stream.

A session that is given up, or that cannot be closed, leaves its stream empty; what it bound in the
resources stays.
-/

namespace PdfCanvas

/-- The content of a page. -/
inductive Contents where
  | single (stream : Stream)
  | array (streams : List Stream)

namespace Contents

/-- The streams in the order of reading. -/
def streams : Contents → List Stream
  | .single stream => [stream]
  | .array streams => streams

def isEmpty (c : Contents) : Bool := c.streams.isEmpty

end Contents

structure Page where
  contents : Option Contents
  resources : Option Resources

namespace Page

def blank : Page := ⟨none, none⟩

/-- The streams of the page. -/
def streams (p : Page) : List Stream :=
  match p.contents with
  | some contents => contents.streams
  | none => []

def hasContents (p : Page) : Bool := !p.streams.isEmpty

/-- The data of the streams after their filters, without decode parameters. -/
def decodedStreams (p : Page) : Except Error (List Bytes) :=
  p.streams.mapM fun stream => decodeStream stream.data stream.filterNames none .standard

end Page

/-- The stream that holds content, deflated if asked for. -/
def contentStream (bytes : Bytes) (compress : Bool) : Stream :=
  if compress then
    (Stream.empty.insert "Filter" (.name "FlateDecode")).setData (Deflate.encode bytes)
  else Stream.empty.setData bytes

/-- A drawing session on a page. -/
structure Session where
  /-- The streams before the new one, if the content is kept. -/
  kept : Option (List Stream)
  content : ContentStream
  compress : Bool

namespace Session

/-- The first stream of content that is bracketed. -/
def openingBracket : Bytes := (Instruction.mk [] .save).bytes

/-- Opens a session. With `resetContext` the new stream starts with `Q`. -/
def start (page : Page) (subsets : Subsets) (options : SessionOptions) (places : Nat) : Session :=
  let content :=
    ContentStream.start .unlimited (page.resources.getD .empty) subsets places
  if options.append && page.hasContents then
    if options.resetContext then
      { kept := some (contentStream openingBracket options.compress :: page.streams)
        content := (content.perform .restore).2
        compress := options.compress }
    else { kept := some page.streams, content, compress := options.compress }
  else { kept := none, content, compress := options.compress }

/-- The page with a stream of the session at its place. -/
def pageWith (s : Session) (stream : Stream) : Page :=
  let contents :=
    match s.kept with
    | some streams => Contents.array (streams ++ [stream])
    | none => .single stream
  ⟨some contents, some s.content.state.resources⟩

/-- The page while the session is open, and after one that is given up. -/
def page (s : Session) : Page := s.pageWith .empty

/-- Carries out a drawing call. -/
def perform (s : Session) (call : Call) : Except Error Unit × Session :=
  let (outcome, content) := s.content.perform call
  (outcome, { s with content })

/-- Ends the session: its stream gets what was drawn. -/
def close (s : Session) : Except Error Unit × Page :=
  match s.content.close with
  | .ok bytes => (.ok (), s.pageWith (contentStream bytes s.compress))
  | .error e => (.error e, s.page)

end Session

end PdfCanvas
