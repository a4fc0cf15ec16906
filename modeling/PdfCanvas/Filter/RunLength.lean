import PdfCanvas.Error

/-!
# Run-length data

A sequence of runs, each with a length byte in front: below 128 that many bytes and one more follow as
they are, above 128 one byte follows that is repeated, and 128 ends the data.
-/

namespace PdfCanvas.RunLength

/-- Decodes runs; the first `skipped` bytes belong to a run that is decoded already. -/
def decodeRuns : (skipped : Nat) → Bytes → Except Error Bytes
  | _, [] => .ok []
  | skipped + 1, _ :: rest => decodeRuns skipped rest
  | 0, length :: rest =>
    if length < 128 then
      let count := length.toNat + 1
      let run := rest.take count
      if run.length < count then .error (.decode (.literalRun count run.length))
      else do return run ++ (← decodeRuns count rest)
    else if length = 128 then .ok []
    else
      match rest with
      | [] => .error (.decode .repeatedByte)
      | byte :: _ => do return List.replicate (257 - length.toNat) byte ++ (← decodeRuns 1 rest)

def decode (data : Bytes) : Except Error Bytes := decodeRuns 0 data

end PdfCanvas.RunLength
