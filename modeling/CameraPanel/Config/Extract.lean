import CameraPanel.Config.Layers
import CameraPanel.Config.Options

/-!
# Options from layers

Every option is looked for in the layers and has its default if no layer speaks of it.  A section may also be given as
the list of its options in the order of their declaration.  The first option that has a value of the wrong kind is
reported: in a table the first in the alphabet, in a list the first of the list.
-/

namespace CameraPanel.Config

/-- What is wrong with a value. -/
inductive Mismatch where
  | kind
  | range
deriving DecidableEq

inductive ConfigError where
  /-- A file is not TOML, or has a key that is reserved. -/
  | malformed (path : String)
  /-- A text of the environment would be cut inside a character. -/
  | cut
  /-- A value does not fit its option. -/
  | mismatch (cause : Mismatch) (path : List String) (layer : Layer) (expected : String)

/-- The message of an error, if it has one.  What is wrong inside a malformed file is not told. -/
def ConfigError.message? : ConfigError → Option String
  | malformed _ | cut => none
  | mismatch cause path l expected =>
    let found := match cause with
      | .kind => "invalid type: found "
      | .range => "invalid value "
    some ("Configuration error: " ++ found ++ l.value.description ++ ", expected " ++ expected ++ " for key \"" ++
      l.source.pathText path ++ "\" in " ++ l.source.description)

/-- What the layers say of one option or section, with its path. -/
structure Place where
  path : List String
  stack : Stack

/-! ### Single options -/

/-- How a value is read as an option. -/
structure Kind (α : Type) where
  expected : String
  read : Value → Except Mismatch α

namespace Kind

def word32 : Kind UInt32 where
  expected := "u32"
  read
    | .signed n => if 0 ≤ n ∧ n < 0x100000000 then .ok (UInt32.ofNat n.toNat) else .error .range
    | .unsigned n => if n < 0x100000000 then .ok (UInt32.ofNat n) else .error .range
    | _ => .error .kind

/-- A whole number is also a floating number. -/
def double : Kind Double where
  expected := "f64"
  read
    | .float x => .ok x
    | .signed n => .ok (.ofInt n)
    | .unsigned n => .ok (.ofInt n)
    | _ => .error .kind

def text : Kind String where
  expected := "a string"
  read
    | .string s => .ok s
    | _ => .error .kind

def truth : Kind Bool where
  expected := "a boolean"
  read
    | .bool b => .ok b
    | _ => .error .kind

end Kind

/-- The option at a place. -/
def Place.option {α : Type} (p : Place) (kind : Kind α) (default : α) : Except ConfigError α :=
  match p.stack with
  | [] => .ok default
  | l :: _ => (kind.read l.value).mapError fun cause => .mismatch cause p.path l kind.expected

/-! ### Sections -/

/-- The parts of a section. -/
structure Parts where
  /-- Whether the section is a list. -/
  listed : Bool
  part : String → Place

namespace Place

/-- The place of a key in a table. -/
def entry (p : Place) (key : String) : Place := ⟨p.path ++ [key], p.stack.entry key⟩

/-- The place of an item of a list. -/
def item (p : Place) (source : Source) (items : List Value) (i : Nat) : Place :=
  ⟨p.path ++ [toString i], (items[i]?.map (Layer.mk source)).toList⟩

/-- The parts of a section with the given keys. -/
def parts (p : Place) (expected : String) (keys : List String) : Except ConfigError Parts :=
  match p.stack with
  | [] => .ok ⟨false, p.entry⟩
  | l :: _ =>
    match l.value with
    | .table _ => .ok ⟨false, p.entry⟩
    | .list items => .ok ⟨true, fun key => p.item l.source items (keys.idxOf key)⟩
    | _ => .error (.mismatch .kind p.path l expected)

def window (p : Place) : Except ConfigError WindowOptions := do
  let default : WindowOptions := {}
  let parts ← p.parts "struct WindowConfig" ["title", "width", "height"]
  let title := (parts.part "title").option .text default.title
  let width := (parts.part "width").option .word32 default.width
  let height := (parts.part "height").option .word32 default.height
  if parts.listed then
    return { title := ← title, width := ← width, height := ← height }
  else
    let height ← height
    return { title := ← title, width := ← width, height }

def panel (p : Place) : Except ConfigError PanelOptions := do
  let default : PanelOptions := {}
  let parts ← p.parts "struct PanelConfig" ["nudge_step", "start_visible"]
  return {
    nudgeStep := ← (parts.part "nudge_step").option .double default.nudgeStep
    startVisible := ← (parts.part "start_visible").option .truth default.startVisible }

def offsets (p : Place) : Except ConfigError Offsets := do
  let parts ← p.parts "struct CameraOffsets" (Field.all.map Field.name)
  let offset (k : Field) := (parts.part k.name).option .double k.default
  return {
    posX := ← offset .posX
    posY := ← offset .posY
    posZ := ← offset .posZ
    rotX := ← offset .rotX
    rotY := ← offset .rotY
    rotZ := ← offset .rotZ }

def bridge (p : Place) : Except ConfigError BridgeOptions := do
  let default : BridgeOptions := {}
  let parts ← p.parts "struct BridgeConfig" ["seed", "reply_delay_frames"]
  let seed := (parts.part "seed").offsets
  let replyDelayFrames := (parts.part "reply_delay_frames").option .word32 default.replyDelayFrames
  if parts.listed then
    return { seed := ← seed, replyDelayFrames := ← replyDelayFrames }
  else
    let replyDelayFrames ← replyDelayFrames
    return { seed := ← seed, replyDelayFrames }

def debug (p : Place) : Except ConfigError DebugOptions := do
  let default : DebugOptions := {}
  let parts ← p.parts "struct DebugConfig" ["log_level"]
  return { logLevel := ← (parts.part "log_level").option .text default.logLevel }

end Place

/-- All options that the layers give. -/
def Stack.options (s : Stack) : Except ConfigError Options := do
  let root : Place := ⟨[], s⟩
  let bridge ← (root.entry "bridge").bridge
  let debug ← (root.entry "debug").debug
  let panel ← (root.entry "panel").panel
  let window ← (root.entry "window").window
  return { window, panel, bridge, debug }

end CameraPanel.Config
