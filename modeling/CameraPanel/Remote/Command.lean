import CameraPanel.Field
import CameraPanel.Number.Literal
import CameraPanel.Text.Blank
import CameraPanel.Text.Quoted

/-!
# Settings commands

The engine takes its commands as Lua source: a call that reads a setting or a call that writes one.  `Command.text`
writes a command; the name of the setting is quoted, and what is no finite number is written as a division by zero.
`Command.parse` reads a chunk.  It allows blanks around the arguments, and takes the name as it stands, up to the next
quote.
-/

namespace CameraPanel

inductive Command where
  | get (key : String)
  | set (key : String) (value : Double)
deriving DecidableEq

/-- Why a chunk is no command; each has the chunk without the blanks around it. -/
inductive CommandError where
  | unknownCall (chunk : String)
  | malformed (chunk : String)
deriving DecidableEq

def CommandError.message : CommandError → String
  | unknownCall chunk => "Not a settings call: " ++ chunk
  | malformed chunk => "Malformed settings call: " ++ chunk

namespace Command

def key : Command → String
  | get key => key
  | set key _ => key

/-! ### Writing -/

/-- The start of a call that reads. -/
def getCall : List Char := "settings.getValue(".toList

/-- The start of a call that writes. -/
def setCall : List Char := "settings.setValue(".toList

def nanQuotient : List Char := "0/0".toList

def infinityQuotient (negative : Bool) : List Char := signed negative "1/0".toList

/-- A number as an argument. -/
def numberChars : Double → List Char
  | .nan => nanQuotient
  | .infinity negative => infinityQuotient negative
  | x => Layout.plain.chars x

/-- The chunk of a command. -/
def chars : Command → List Char
  | get key => getCall ++ Text.quoted key.toList ++ [')']
  | set key value => setCall ++ Text.quoted key.toList ++ ',' :: (numberChars value ++ [')'])

/-- The chunk of a command. -/
def text (c : Command) : String := String.ofList c.chars

/-! ### Reading -/

/-- What follows `start` in a text that starts with it. -/
def after? : (start : List Char) → List Char → Option (List Char)
  | [], cs => some cs
  | _ :: _, [] => none
  | a :: start, c :: cs => if a = c then after? start cs else none

/-- What stands before a closing parenthesis at the end. -/
def beforeParen? (cs : List Char) : Option (List Char) :=
  if cs.getLast? = some ')' then some cs.dropLast else none

/-- A name between quotes, and what follows it. -/
def quotedName? (cs : List Char) : Option (List Char × List Char) :=
  match Text.trimStart cs with
  | '"' :: rest =>
    match rest.span (· != '"') with
    | (key, '"' :: rest) => some (key, rest)
    | _ => none
  | _ => none

/-- The number of an argument. -/
def number? (cs : List Char) : Option Double :=
  if cs = nanQuotient then some .nan
  else if cs = infinityQuotient false then some (.infinity false)
  else if cs = infinityQuotient true then some (.infinity true)
  else Format.double.ofLiteral? cs

/-- The number after the comma of a call that writes. -/
def secondArgument? (cs : List Char) : Option Double :=
  match Text.trimStart cs with
  | ',' :: rest => number? (Text.trim rest)
  | _ => none

/-- The arguments of a call that reads. -/
def getArguments? (cs : List Char) : Option Command := do
  let (key, rest) ← quotedName? (← beforeParen? cs)
  if (Text.trim rest).isEmpty then some (get (String.ofList key)) else none

/-- The arguments of a call that writes. -/
def setArguments? (cs : List Char) : Option Command := do
  let (key, rest) ← quotedName? (← beforeParen? cs)
  return set (String.ofList key) (← secondArgument? rest)

/-- Reads a chunk without blanks around it. -/
def parseChars (cs : List Char) : Except CommandError Command :=
  let orMalformed (c? : Option Command) : Except CommandError Command :=
    match c? with
    | some c => .ok c
    | none => .error (.malformed (String.ofList cs))
  match after? getCall cs, after? setCall cs with
  | some rest, _ => orMalformed (getArguments? rest)
  | none, some rest => orMalformed (setArguments? rest)
  | none, none => .error (.unknownCall (String.ofList cs))

/-- Reads a chunk. -/
def parse (chunk : String) : Except CommandError Command := parseChars (Text.trim chunk.toList)

end Command

end CameraPanel
