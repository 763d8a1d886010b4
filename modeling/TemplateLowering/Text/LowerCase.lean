/-!
# Lower-casing for look-ups among ASCII names

A name is looked up in a table of lower-case ASCII names regardless of its case.  The only
characters whose lower-case form is a single ASCII letter are the ASCII capitals and the Kelvin
sign, so every other character can stay as it is: it occurs in no name of the table, before and
after lower-casing.
-/

namespace TemplateLowering.Text

/-- The lower-case form of a character as far as it is an ASCII letter. -/
def lowerChar (c : Char) : Char :=
  if c.toNat = 0x212A then 'k' else c.toLower

/-- The key under which a name is looked up among lower-case ASCII names. -/
def lookupKey (name : String) : String :=
  String.ofList (name.toList.map lowerChar)

end TemplateLowering.Text
