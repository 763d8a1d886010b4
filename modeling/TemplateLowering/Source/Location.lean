import TemplateLowering.Number.Count

/-!
# Locations in a source file

A location is a byte offset into the UTF-8 text of a file, with the line and the column it falls on.
Offsets and columns count bytes and may fall inside a character.  `Location.moveBy` walks byte by
byte from a location, keeping line and column up to date, and stops at either end of the file.
`Location.moveBy?` does the same for a location whose line and column may be any words.
-/

namespace TemplateLowering

structure SourceFile where
  content : String := ""
  url : String := ""
deriving DecidableEq, Inhabited, Repr

structure Location where
  file : SourceFile
  offset : Nat
  line : Nat
  col : Nat
deriving DecidableEq, Inhabited, Repr

/-- The signed number that shares its 64 bits with the unsigned number `n`. -/
def signed64 (n : Nat) : Int :=
  (n : Int).bmod UInt64.size

namespace SourceFile

def size (file : SourceFile) : Nat :=
  file.content.utf8ByteSize

/-- Whether the byte at `offset` is a line feed. -/
def isLineFeed (file : SourceFile) (offset : Nat) : Bool :=
  if h : (⟨offset⟩ : String.Pos.Raw) < file.content.rawEndPos then
    file.content.getUTF8Byte ⟨offset⟩ h == 10
  else
    false

/-- The offset of the last line feed among the first `n` bytes. -/
def lastLineFeed? (file : SourceFile) : Nat → Option Nat
  | 0 => none
  | n + 1 => if file.isLineFeed n then some n else lastLineFeed? file n

end SourceFile

namespace Location

/-- The first byte of a file. -/
def origin (file : SourceFile) : Location :=
  { file, offset := 0, line := 0, col := 0 }

/-- One byte back.  Stepping back over a line feed takes the column from the distance to the line
feed before it, or to the start of the file. -/
def retreat (loc : Location) : Location :=
  match loc.offset with
  | 0 => loc
  | n + 1 =>
      if loc.file.isLineFeed n then
        { loc with
          offset := n
          line := loc.line - 1
          col := match loc.file.lastLineFeed? n with
            | some prior => n - prior
            | none => n }
      else
        { loc with offset := n, col := loc.col - 1 }

/-- One byte forward. -/
def advance (loc : Location) : Location :=
  if loc.offset < loc.file.size then
    if loc.file.isLineFeed loc.offset then
      { loc with offset := loc.offset + 1, line := loc.line + 1, col := 0 }
    else
      { loc with offset := loc.offset + 1, col := loc.col + 1 }
  else
    loc

def retreatBy : Nat → Location → Location
  | 0, loc => loc
  | n + 1, loc => retreatBy n loc.retreat

def advanceBy : Nat → Location → Location
  | 0, loc => loc
  | n + 1, loc => advanceBy n loc.advance

/-- The location as far as it lies in its file: an offset past the end is taken for the end. -/
def clamped (loc : Location) : Location :=
  { loc with offset := min loc.offset loc.file.size }

/-- The location `delta` bytes away, or the end of the file that comes first. -/
def moveBy (loc : Location) (delta : Int) : Location :=
  let start := loc.clamped
  if delta < 0 then
    retreatBy (min delta.natAbs start.offset) start
  else
    advanceBy (min delta.toNat (start.file.size - start.offset)) start

/-- Whether a word holds the line and a word holds the column. -/
def isCounted (loc : Location) : Bool :=
  loc.line < UInt64.size && loc.col < UInt64.size

/-- Forward byte by byte, as long as line and column can be counted. -/
def advanceBy? : Nat → Location → Except CountError Location
  | 0, loc => .ok loc
  | n + 1, loc =>
      if loc.advance.isCounted then advanceBy? n loc.advance else .error .overflow

/-- The location `delta` bytes away, unless its line or its column cannot be counted. -/
def moveBy? (loc : Location) (delta : Int) : Except CountError Location :=
  if delta < 0 then
    .ok (loc.moveBy delta)
  else
    let start := loc.clamped
    advanceBy? (min delta.toNat (start.file.size - start.offset)) start

theorem advanceBy_eq_of_advanceBy? {n : Nat} {loc found : Location}
    (h : advanceBy? n loc = .ok found) : advanceBy n loc = found := by
  induction n generalizing loc with
  | zero => simpa [advanceBy, advanceBy?] using h
  | succ n ih =>
      rw [advanceBy?] at h
      split at h
      · exact ih h
      · cases h

/-- A move that can be counted ends where the move ends. -/
theorem moveBy_eq_of_moveBy? {loc found : Location} {delta : Int}
    (h : loc.moveBy? delta = .ok found) : loc.moveBy delta = found := by
  unfold moveBy? at h
  split at h
  · simpa using h
  · rename_i hdelta
    simpa [moveBy, hdelta] using advanceBy_eq_of_advanceBy? h

/-- The location as it appears in messages: `url@line:col`. -/
def text (loc : Location) : String :=
  loc.file.url ++ "@" ++ toString loc.line ++ ":" ++ toString loc.col

end Location
end TemplateLowering
