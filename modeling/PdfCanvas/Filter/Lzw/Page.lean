import PdfCanvas.Filter.Lzw.Table

/-!
# Pages of decoded LZW data

Strings are written to pages of 4096 bytes; a string that does not fit starts a page, and so does a clear
code. Codes are fetched in groups, as many of one length as 64 bits hold. A page that a string fills to
the end, after which no bits are left to fetch, is followed by an idle page: on it the data have to end,
before it is full and without a clear code.
-/

namespace PdfCanvas.Lzw

/-- How far writing and fetching have come. -/
structure Page where
  /-- The bytes that the page still takes. -/
  room : Nat
  isIdle : Bool
  /-- The codes of the group that are still to come. -/
  group : Nat
  /-- The codes below this one had strings when the group was fetched. -/
  known : Nat
  /-- Whether all bits had been fetched with the group. -/
  isDrained : Bool

namespace Page

/-- The bytes of a page. -/
def size : Nat := 4096

/-- A page that starts with a string. -/
def startingWith (string : Bytes) : Page := ⟨size - string.length, false, 0, 0, false⟩

/-- The bits at hand after a fetch: whole bytes, at most 64 bits together with those left from before. -/
def fetched (left : Nat) : Nat := if left ≤ 64 then left else 57 + (left - 57) % 8

/-- Fetches the next group: six codes at most, and none behind the one that makes codes longer. -/
def fetch (p : Page) (reading : Reading) : Page :=
  let count := min 6 (fetched reading.left / reading.width)
  { p with
    group := min count (reading.unchanged + 1)
    known := reading.next
    isDrained := reading.left ≤ 64 }

/-- Writes a string to a page; a group ends with a code that had no string when it was fetched, or whose
string does not fit. -/
def write (p : Page) (reading : Reading) (string : Bytes) : Option Page :=
  let p := if p.group = 0 then p.fetch reading else p
  let endsGroup := p.group ≤ 1 ∨ p.known ≤ reading.code
  if p.room < string.length then
    if p.isIdle then none else some (startingWith string)
  else if endsGroup ∧ p.room = string.length then
    if p.isIdle then none else some { p with room := size, isIdle := p.isDrained, group := 0 }
  else
    some { p with room := p.room - string.length, group := if endsGroup then 0 else p.group - 1 }

/-- Whether readings can be written from a page on; without a page, the next string starts one. -/
def accepts : Option Page → List Reading → Bool
  | _, [] => true
  | page, reading :: rest =>
    match reading.string, page with
    | none, none => accepts none rest
    | none, some page => !page.isIdle && accepts none rest
    | some string, none => accepts (some (startingWith string)) rest
    | some string, some page =>
      match page.write reading string with
      | some page => accepts (some page) rest
      | none => false

end Page

end PdfCanvas.Lzw
