import TemplateLowering.Interchange.Record
import TemplateLowering.Source.Span

/-!
# Spans in the interchange form
-/

namespace TemplateLowering.Interchange

def readFileRecord : Reader SourceFile :=
  record (.mk <$> text "content" <*> text "url")

def readLocation : Reader Location :=
  record
    (.mk <$> field readFileRecord "file" <*> field readNat "offset" <*>
      field readNat "line" <*> field readNat "col")

def readSpan : Reader SourceSpan :=
  recordWith 1
    (.mk <$> field readLocation "start" <*> field readLocation "end" <*> text? "details")

def sourceSpan : Fields SourceSpan := field readSpan "source_span"

def readExprSpan : Reader ExprSpan :=
  record (.mk <$> field readNat "start" <*> field readNat "end")

def readAbsoluteSpan : Reader AbsoluteSpan :=
  record (.mk <$> field readNat "start" <*> field readNat "end")

/-! ## Writing -/

def writeFile (file : SourceFile) : Json :=
  .record [("content", .text file.content), ("url", .text file.url)]

def writeLocation (loc : Location) : Json :=
  .record
    [("file", writeFile loc.file), ("offset", .nat loc.offset), ("line", .nat loc.line),
      ("col", .nat loc.col)]

def writeSpan (span : SourceSpan) : Json :=
  .record
    [("start", writeLocation span.start), ("end", writeLocation span.stop),
      ("details", .optText span.details)]

def writeSpan? (span : Option SourceSpan) : Json := .ofOption writeSpan span

def writeExprSpan (span : ExprSpan) : Json :=
  .record [("start", .nat span.start), ("end", .nat span.stop)]

def writeAbsoluteSpan (span : AbsoluteSpan) : Json :=
  .record [("start", .nat span.start), ("end", .nat span.stop)]

end TemplateLowering.Interchange
