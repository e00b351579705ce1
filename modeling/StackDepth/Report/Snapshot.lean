import StackDepth.Report.Json

/-!
# Snapshots

A snapshot keeps a report, usually that of an unfinished analysis, in a file. It is a byte that no text
contains, followed by the report. Nothing but a snapshot is accepted when one is read; a text is none.
-/

namespace StackDepth

namespace Snapshot

/-- The first byte of a snapshot. -/
def mark : UInt8 := 0xFF

/-- A report as a snapshot. -/
def encode (r : Report) : ByteArray := ⟨#[mark]⟩ ++ r.toJson.compress.toUTF8

/-- The report of a snapshot. -/
def decode? (bytes : ByteArray) : Option Report :=
  if bytes.data[0]? = some mark then
    ((String.fromUTF8? (bytes.extract 1 bytes.size)).bind Json.parse?).bind Report.ofJson?
  else none

end Snapshot

end StackDepth
