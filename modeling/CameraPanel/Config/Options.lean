import CameraPanel.Field
import CameraPanel.Json.Value

/-!
# The options of the program
-/

namespace CameraPanel

structure WindowOptions where
  title : String := "camsync"
  width : UInt32 := 960
  height : UInt32 := 160

structure PanelOptions where
  /-- How far one step of a nudge goes. -/
  nudgeStep : Double := Format.double.nearest (1 / 10)
  /-- Whether the panel is shown at the start. -/
  startVisible : Bool := true

structure BridgeOptions where
  /-- The settings that the engine starts with. -/
  seed : Offsets := .default
  /-- The number of the frame from which on the engine replies. -/
  replyDelayFrames : UInt32 := 30

structure DebugOptions where
  logLevel : String := "info"

structure Options where
  window : WindowOptions := {}
  panel : PanelOptions := {}
  bridge : BridgeOptions := {}
  debug : DebugOptions := {}

/-- Members of a JSON object, in the given order. -/
private def objectChars (members : List (String × List Char)) : List Char :=
  let member := fun (name, value) => Json.stringChars (String.toList name) ++ ':' :: value
  '\x7b' :: ([','].intercalate (members.map member) ++ ['\x7d'])

/-- Offsets as a JSON object, in the order of the fields. -/
def Offsets.jsonChars (o : Offsets) : List Char :=
  objectChars (o.entries.map fun (k, v) => (k.name, Json.numberChars v))

/-- All options as a JSON object. -/
def Options.jsonChars (o : Options) : List Char :=
  let number (n : UInt32) := Json.integerChars n.toNat
  objectChars
    [("window", objectChars
        [("title", Json.stringChars o.window.title.toList),
         ("width", number o.window.width),
         ("height", number o.window.height)]),
     ("panel", objectChars
        [("nudge_step", Json.numberChars o.panel.nudgeStep),
         ("start_visible", (Json.bool o.panel.startVisible).chars)]),
     ("bridge", objectChars
        [("seed", o.bridge.seed.jsonChars),
         ("reply_delay_frames", number o.bridge.replyDelayFrames)]),
     ("debug", objectChars
        [("log_level", Json.stringChars o.debug.logLevel.toList)])]

end CameraPanel
