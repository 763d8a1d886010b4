import TemplateLowering.Source.Location

/-!
# Spans of a source file

A span runs from one location to another.  An expression carries spans relative to the attribute or
block that it was parsed from; `ExprSpan.resolve?` turns such a span into a span of the file.
-/

namespace TemplateLowering

structure SourceSpan where
  start : Location
  stop : Location
  details : Option String := none
deriving DecidableEq, Inhabited, Repr

namespace SourceSpan

/-- The span between two byte offsets of a file, given as unsigned 64-bit numbers and read as signed
distances from the start of the file. -/
def ofOffsets (file : SourceFile) (start stop : Nat) : SourceSpan :=
  let origin := Location.origin file
  { start := origin.moveBy (signed64 start), stop := origin.moveBy (signed64 stop) }

/-- The text that the span covers; nothing when one of its ends splits a character. -/
def text (span : SourceSpan) : String :=
  let content := span.start.file.content
  let size := content.utf8ByteSize
  let first := min span.start.offset size
  let last := min (max span.stop.offset first) size
  (String.fromUTF8? (content.toUTF8.extract first last)).getD ""

/-- Where an optional span starts, as it appears in messages. -/
def locate : Option SourceSpan → String
  | some span => span.start.text
  | none => "<unknown>"

end SourceSpan

/-- A span of bytes relative to the start of an expression's source text. -/
structure ExprSpan where
  start : Nat := 0
  stop : Nat := 0
deriving DecidableEq, Inhabited, Repr

/-- A span of bytes counted from the start of the file. -/
structure AbsoluteSpan where
  start : Nat := 0
  stop : Nat := 0
deriving DecidableEq, Inhabited, Repr

namespace ExprSpan

/-- The absolute span of an expression whose text starts at `offset`. -/
def toAbsolute (span : ExprSpan) (offset : Nat) : Except CountError AbsoluteSpan := do
  let start ← addCounts offset span.start
  let stop ← addCounts offset span.stop
  return { start, stop }

/-- The span in the file, when the span that the expression belongs to is known. -/
def resolve? (span : ExprSpan) (base : Option SourceSpan) : Option SourceSpan :=
  base.map fun base =>
    { start := base.start.moveBy (signed64 span.start)
      stop := base.start.moveBy (signed64 span.stop) }

end ExprSpan
end TemplateLowering
