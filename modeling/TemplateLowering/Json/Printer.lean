import TemplateLowering.Json.Basic

/-!
# Writing JSON

`Json.render` writes a value without white space.  A text that could not be read is written as null.
-/

namespace TemplateLowering.Json

/-- A character of a text: quotes, backslashes and control characters are escaped. -/
def writeChar (out : String) (c : Char) : String :=
  if c = '"' then out ++ "\\\""
  else if c = '\\' then out ++ "\\\\"
  else if c.toNat < 32 then
    let digits := Nat.toDigits 16 c.toNat
    out ++ "\\u" ++ String.ofList (List.replicate (4 - digits.length) '0' ++ digits)
  else out.push c

def writeText (out text : String) : String :=
  (text.toList.foldl writeChar (out.push '"')).push '"'

def writeOptionalText (out : String) : Option String → String
  | some text => writeText out text
  | none => out ++ "null"

def writeNumber (out : String) (n : JsonNumber) : String :=
  let out := if n.negative then out.push '-' else out
  let out := out ++ String.ofList n.whole
  let out := if n.fraction.isEmpty then out else out ++ "." ++ String.ofList n.fraction
  match n.exponent with
  | none => out
  | some (negative, digits) =>
      let out := if negative then out ++ "e-" else out ++ "e"
      out ++ String.ofList digits

mutual

def write (out : String) : Json → String
  | .null => out ++ "null"
  | .bool true => out ++ "true"
  | .bool false => out ++ "false"
  | .number n => writeNumber out n
  | .string text => writeOptionalText out text
  | .array [] => out ++ "[]"
  | .array (item :: items) => (writeItems (write (out.push '[') item) items).push ']'
  | .object [] => out ++ "\x7b\x7d"
  | .object ({ key, value } :: fields) =>
      (writeFields (write ((writeOptionalText (out.push '\x7b') key).push ':') value) fields).push
        '\x7d'

def writeItems (out : String) : List Json → String
  | [] => out
  | item :: items => writeItems (write (out.push ',') item) items

def writeFields (out : String) : List JsonField → String
  | [] => out
  | { key, value } :: fields =>
      writeFields (write ((writeOptionalText (out.push ',') key).push ':') value) fields

end

def render (value : Json) : String :=
  write "" value

end TemplateLowering.Json
