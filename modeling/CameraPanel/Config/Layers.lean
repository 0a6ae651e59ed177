import CameraPanel.Config.Value

/-!
# Layers

Several sources may speak of one setting.  What they say is a stack of layers, the source that counts most on top.  A
table lets the tables right below it be seen: a key that it does not have is looked for in them.  Anything else hides
all that lies below it.
-/

namespace CameraPanel.Config

/-- Where a value comes from. -/
inductive Source where
  | file (path : String)
  | environment
deriving DecidableEq

namespace Source

/-- A source as a message names it. -/
def description : Source → String
  | file path => path ++ " TOML file"
  | environment => "`CAMSYNC_` environment variable(s)"

/-- The path of a setting as a message names it. -/
def pathText (path : List String) : Source → String
  | file _ => ".".intercalate ("default" :: path)
  | environment => (".".intercalate path).map Char.toUpper

end Source

/-- What one source says. -/
structure Layer where
  source : Source
  value : Value

/-- What all sources say, the one that counts most first. -/
abbrev Stack := List Layer

namespace Stack

/-- The layers that can be seen: the first, and if that is a table, the tables right below it. -/
def visible : Stack → Stack
  | [] => []
  | l :: rest => if l.value.isTable then l :: rest.takeWhile (·.value.isTable) else [l]

/-- What the layers say of a key. -/
def entry (key : String) (s : Stack) : Stack :=
  visible (s.filterMap fun l => (l.value.entry? key).map (Layer.mk l.source))

@[simp] theorem entry_nil (key : String) : entry key [] = [] := rfl

/-- The first layer that has something for a key is on top of what the layers say of it. -/
theorem head?_entry (key : String) (s : Stack) :
    (s.entry key).head? = s.findSome? fun l => (l.value.entry? key).map (Layer.mk l.source) := by
  rw [← List.head?_filterMap, entry]
  cases s.filterMap fun l => (l.value.entry? key).map (Layer.mk l.source) with
  | nil => rfl
  | cons l rest =>
    simp only [visible]
    split <;> rfl

end Stack

end CameraPanel.Config
