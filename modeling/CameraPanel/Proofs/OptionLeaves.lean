import CameraPanel.Config.Extract
import Mathlib.Data.List.TakeWhile

/-!
# Options one by one

Each single option is a leaf of the tree of options: it has a path of keys, a kind, and a default.  A source fits the
options if it gives a table for each section and a value of the right kind for each option that it speaks of at all.
When all sources fit, every option is read, and it is what the first source says that has a value for it
(`Stack.options_of_fits`).  What else a source says, and where, does not matter.
-/

namespace CameraPanel

/-! ### Leaves -/

/-- A single option, with the type of its values. -/
inductive Leaf : Type → Type
  | title : Leaf String
  | width : Leaf UInt32
  | height : Leaf UInt32
  | nudgeStep : Leaf Double
  | startVisible : Leaf Bool
  | seed (k : Field) : Leaf Double
  | replyDelayFrames : Leaf UInt32
  | logLevel : Leaf String

/-- The value of an option. -/
def Options.get (o : Options) : {α : Type} → Leaf α → α
  | _, .title => o.window.title
  | _, .width => o.window.width
  | _, .height => o.window.height
  | _, .nudgeStep => o.panel.nudgeStep
  | _, .startVisible => o.panel.startVisible
  | _, .seed k => o.bridge.seed.get k
  | _, .replyDelayFrames => o.bridge.replyDelayFrames
  | _, .logLevel => o.debug.logLevel

theorem Options.ext_get {o o' : Options} (h : ∀ {α : Type} (leaf : Leaf α), o.get leaf = o'.get leaf) : o = o' := by
  obtain ⟨⟨title, width, height⟩, ⟨nudgeStep, startVisible⟩, ⟨seed, replyDelayFrames⟩, ⟨logLevel⟩⟩ := o
  obtain ⟨⟨title', width', height'⟩, ⟨nudgeStep', startVisible'⟩, ⟨seed', replyDelayFrames'⟩, ⟨logLevel'⟩⟩ := o'
  obtain rfl : title = title' := h .title
  obtain rfl : width = width' := h .width
  obtain rfl : height = height' := h .height
  obtain rfl : nudgeStep = nudgeStep' := h .nudgeStep
  obtain rfl : startVisible = startVisible' := h .startVisible
  obtain rfl : seed = seed' := PerField.ext_get fun k => h (.seed k)
  obtain rfl : replyDelayFrames = replyDelayFrames' := h .replyDelayFrames
  obtain rfl : logLevel = logLevel' := h .logLevel
  rfl

namespace Leaf

/-- The value that an option has if no source speaks of it. -/
def default {α : Type} (leaf : Leaf α) : α := Options.get {} leaf

/-- The keys that lead to an option. -/
def path : {α : Type} → Leaf α → List String
  | _, title => ["window", "title"]
  | _, width => ["window", "width"]
  | _, height => ["window", "height"]
  | _, nudgeStep => ["panel", "nudge_step"]
  | _, startVisible => ["panel", "start_visible"]
  | _, seed k => ["bridge", "seed", k.name]
  | _, replyDelayFrames => ["bridge", "reply_delay_frames"]
  | _, logLevel => ["debug", "log_level"]

/-- How a value is read as the option. -/
def kind : {α : Type} → Leaf α → Config.Kind α
  | _, title => .text
  | _, width => .word32
  | _, height => .word32
  | _, nudgeStep => .double
  | _, startVisible => .truth
  | _, seed _ => .double
  | _, replyDelayFrames => .word32
  | _, logLevel => .text

theorem default_seed (k : Field) : (seed k).default = k.default := by cases k <;> rfl

/-- No option is a table. -/
theorem isTable_of_read {α : Type} {leaf : Leaf α} {v : Config.Value} {x : α} (h : leaf.kind.read v = .ok x) :
    v.isTable = false := by
  cases v with
  | table entries => cases leaf <;> cases h
  | _ => rfl

end Leaf

namespace Config

/-! ### What a source says -/

/-- What a value has at the end of a path of keys. -/
def Value.at? : List String → Value → Option Value
  | [], v => some v
  | key :: path, v => (v.entry? key).bind (at? path)

private theorem Value.at?_append (path path' : List String) (v : Value) :
    v.at? (path ++ path') = (v.at? path).bind (at? path') := by
  induction path generalizing v with
  | nil => rfl
  | cons key path ih =>
    show (v.entry? key).bind (at? (path ++ path')) = ((v.entry? key).bind (at? path)).bind (at? path')
    cases v.entry? key with
    | none => rfl
    | some w => exact ih w

/-- The paths of the sections. -/
def sections : List (List String) := [["window"], ["panel"], ["bridge"], ["bridge", "seed"], ["debug"]]

/-- Every option is a key of a section. -/
theorem exists_section {α : Type} (leaf : Leaf α) : ∃ q ∈ sections, ∃ key, leaf.path = q ++ [key] := by
  cases leaf with
  | seed k => exact ⟨["bridge", "seed"], by decide, k.name, rfl⟩
  | _ => exact ⟨[_], by decide, _, rfl⟩

/-- Each section that a value speaks of is a table. -/
def Value.Tabular (v : Value) : Prop := ∀ path ∈ sections, ∀ w, v.at? path = some w → w.isTable = true

/-- Each section that a value speaks of is a table, and each option has a value of its kind. -/
structure Value.Fits (v : Value) : Prop where
  tabular : v.Tabular
  kind : ∀ {α : Type} (leaf : Leaf α) (w : Value), v.at? leaf.path = some w → ∃ x, leaf.kind.read w = .ok x

/-- All options. -/
def leaves : List (Sigma Leaf) :=
  [⟨_, .title⟩, ⟨_, .width⟩, ⟨_, .height⟩, ⟨_, .nudgeStep⟩, ⟨_, .startVisible⟩, ⟨_, .replyDelayFrames⟩,
    ⟨_, .logLevel⟩] ++ Field.all.map fun k => ⟨_, .seed k⟩

theorem mem_leaves {α : Type} (leaf : Leaf α) : ⟨α, leaf⟩ ∈ leaves := by
  cases leaf with
  | seed k => exact List.mem_append_right _ (List.mem_map_of_mem k.mem_all)
  | _ => exact List.mem_append_left _ (by simp)

theorem isOk_iff {α ε : Type} {r : Except ε α} : r.isOk = true ↔ ∃ x, r = .ok x := by
  cases r <;> simp [Except.isOk, Except.toBool]

instance (v : Value) : Decidable v.Fits :=
  decidable_of_iff
    ((∀ path ∈ sections, (v.at? path).all Value.isTable = true) ∧
      ∀ l ∈ leaves, (v.at? l.2.path).all (fun w => (l.2.kind.read w).isOk) = true) <| by
    simp only [Option.all_eq_true]
    constructor
    · rintro ⟨htabular, hkind⟩
      exact ⟨htabular, fun leaf w hw => isOk_iff.1 (hkind _ (mem_leaves leaf) w hw)⟩
    · rintro ⟨htabular, hkind⟩
      exact ⟨htabular, fun l _ w hw => isOk_iff.2 (hkind l.2 w hw)⟩

end Config

open Config (Value Stack Layer Place)

/-- What a value gives for an option, if it gives something that can be read. -/
def Leaf.in? {α : Type} (leaf : Leaf α) (v : Value) : Option α :=
  (v.at? leaf.path).bind fun w => (leaf.kind.read w).toOption

/-- What the first of several layers gives for an option, or else its default. -/
def Leaf.first {α : Type} (leaf : Leaf α) (s : Stack) : α :=
  (s.findSome? fun l => leaf.in? l.value).getD leaf.default

/-! ### Layers at a path -/

namespace Config.Stack

/-- What the layers have at the end of a path, if every table lets the ones below be seen. -/
def under (path : List String) (s : Stack) : Stack :=
  s.filterMap fun l => (l.value.at? path).map (Layer.mk l.source)

private theorem under_nil (s : Stack) : under [] s = s := List.filterMap_some

private theorem visible_of_tables {s : Stack} (h : ∀ l ∈ s, l.value.isTable = true) : visible s = s := by
  cases s with
  | nil => rfl
  | cons l rest =>
    obtain ⟨hl, hrest⟩ := List.forall_mem_cons.1 h
    rw [visible, if_pos hl, List.takeWhile_eq_self_iff.2 hrest]

/-- The entries of what lies at a path lie at a longer path. -/
private theorem filterMap_entry?_under (path : List String) (key : String) (s : Stack) :
    (under path s).filterMap (fun l => (l.value.entry? key).map (Layer.mk l.source)) = under (path ++ [key]) s := by
  rw [under, List.filterMap_filterMap, under]
  refine congrArg (List.filterMap · s) (funext fun l => ?_)
  rw [Value.at?_append]
  cases l.value.at? path with
  | none => rfl
  | some w =>
    show (w.entry? key).map (Layer.mk l.source) = ((w.entry? key).bind some).map (Layer.mk l.source)
    rw [Option.bind_fun_some]

private theorem head?_entry_under (path : List String) (key : String) (s : Stack) :
    (entry key (under path s)).head? = (under (path ++ [key]) s).head? := by
  rw [head?_entry, ← List.head?_filterMap, filterMap_entry?_under]

variable {s : Stack}

private theorem isTable_under (h : ∀ l ∈ s, l.value.Fits) {path : List String} (hpath : path ∈ sections) :
    ∀ l ∈ under path s, l.value.isTable = true := by
  intro l hl
  obtain ⟨l₀, hl₀, heq⟩ := List.mem_filterMap.1 hl
  obtain ⟨w, hw, rfl⟩ := Option.map_eq_some_iff.1 heq
  exact (h l₀ hl₀).tabular path hpath w hw

private theorem entry_section (h : ∀ l ∈ s, l.value.Fits) (path : List String) {key : String}
    (hpath : path ++ [key] ∈ sections) : entry key (under path s) = under (path ++ [key]) s := by
  rw [entry, filterMap_entry?_under, visible_of_tables (isTable_under h hpath)]

/-- The first layer that has something for an option can be read as the option. -/
private theorem read_head?_under (h : ∀ l ∈ s, l.value.Fits) {α : Type} (leaf : Leaf α) :
    ((under leaf.path s).head? = none ∧ leaf.first s = leaf.default) ∨
      ∃ l, (under leaf.path s).head? = some l ∧ leaf.kind.read l.value = .ok (leaf.first s) := by
  induction s with
  | nil => exact Or.inl ⟨rfl, rfl⟩
  | cons l rest ih =>
    obtain ⟨hl, hrest⟩ := List.forall_mem_cons.1 h
    cases hat : l.value.at? leaf.path with
    | none =>
      have hunder : under leaf.path (l :: rest) = under leaf.path rest := by simp [under, hat]
      have hfirst : leaf.first (l :: rest) = leaf.first rest := by simp [Leaf.first, Leaf.in?, hat]
      rw [hunder, hfirst]
      exact ih hrest
    | some w =>
      obtain ⟨x, hx⟩ := hl.kind leaf w hat
      have hfirst : leaf.first (l :: rest) = x := by simp [Leaf.first, Leaf.in?, hat, hx, Except.toOption]
      refine Or.inr ⟨⟨l.source, w⟩, by simp [under, hat], ?_⟩
      rw [hfirst]
      exact hx

end Config.Stack

/-! ### Places -/

namespace Config.Place

variable {s : Stack} {p : Place}

private theorem parts_of_tables (h : ∀ l ∈ p.stack, l.value.isTable = true) (expected : String) (keys : List String) :
    p.parts expected keys = .ok ⟨false, p.entry⟩ := by
  unfold parts
  cases hstack : p.stack with
  | nil => rfl
  | cons l rest =>
    have hl : l.value.isTable = true := h l (by simp [hstack])
    cases hvalue : l.value with
    | table entries => simp [hvalue]
    | _ => simp [hvalue, Value.isTable] at hl

private theorem parts_section (h : ∀ l ∈ s, l.value.Fits) {path : List String} (hpath : path ∈ sections)
    (hp : p.stack = Stack.under path s) (expected : String) (keys : List String) :
    p.parts expected keys = .ok ⟨false, p.entry⟩ :=
  parts_of_tables (hp ▸ Stack.isTable_under h hpath) expected keys

/-- The option at a place below a section is the one that the layers give. -/
private theorem option_entry (h : ∀ l ∈ s, l.value.Fits) {path : List String} (hp : p.stack = Stack.under path s)
    {α : Type} (leaf : Leaf α) {key : String} (hkey : leaf.path = path ++ [key]) :
    (p.entry key).option leaf.kind leaf.default = .ok (leaf.first s) := by
  have hhead : (p.entry key).stack.head? = (Stack.under leaf.path s).head? := by
    show (Stack.entry key p.stack).head? = _
    rw [hp, Stack.head?_entry_under, hkey]
  unfold option
  cases hstack : (p.entry key).stack with
  | nil =>
    rw [hstack] at hhead
    rcases Stack.read_head?_under h leaf with ⟨-, hfirst⟩ | ⟨l, hl, -⟩
    · rw [hfirst]
    · rw [← hhead] at hl
      cases hl
  | cons l rest =>
    rw [hstack] at hhead
    rcases Stack.read_head?_under h leaf with ⟨hnone, -⟩ | ⟨l', hl', hread⟩
    · rw [← hhead] at hnone
      cases hnone
    · obtain rfl : l = l' := Option.some.inj (hhead.trans hl')
      simp [hread, Except.mapError]

private theorem window_of_fits (h : ∀ l ∈ s, l.value.Fits) (hp : p.stack = Stack.under ["window"] s) :
    p.window = .ok ⟨Leaf.title.first s, Leaf.width.first s, Leaf.height.first s⟩ := by
  have hparts := parts_section h (by simp [sections]) hp "struct WindowConfig" ["title", "width", "height"]
  have htitle : (p.entry "title").option .text ({} : WindowOptions).title = _ := option_entry h hp .title rfl
  have hwidth : (p.entry "width").option .word32 ({} : WindowOptions).width = _ := option_entry h hp .width rfl
  have hheight : (p.entry "height").option .word32 ({} : WindowOptions).height = _ := option_entry h hp .height rfl
  simp only [window, hparts, htitle, hwidth, hheight, bind, Except.bind]
  rfl

private theorem panel_of_fits (h : ∀ l ∈ s, l.value.Fits) (hp : p.stack = Stack.under ["panel"] s) :
    p.panel = .ok ⟨Leaf.nudgeStep.first s, Leaf.startVisible.first s⟩ := by
  have hparts := parts_section h (by simp [sections]) hp "struct PanelConfig" ["nudge_step", "start_visible"]
  have hstep : (p.entry "nudge_step").option .double ({} : PanelOptions).nudgeStep = _ :=
    option_entry h hp .nudgeStep rfl
  have hvisible : (p.entry "start_visible").option .truth ({} : PanelOptions).startVisible = _ :=
    option_entry h hp .startVisible rfl
  simp only [panel, hparts, hstep, hvisible, bind, Except.bind]
  rfl

private theorem offsets_of_fits (h : ∀ l ∈ s, l.value.Fits) (hp : p.stack = Stack.under ["bridge", "seed"] s) :
    ∃ o, p.offsets = .ok o ∧ ∀ k, o.get k = (Leaf.seed k).first s := by
  have hparts := parts_section h (by simp [sections]) hp "struct CameraOffsets" (Field.all.map Field.name)
  have hoffset (k : Field) : (p.entry k.name).option .double k.default = .ok ((Leaf.seed k).first s) := by
    rw [← Leaf.default_seed]
    exact option_entry h hp (.seed k) rfl
  simp only [offsets, hparts, hoffset, bind, Except.bind]
  refine ⟨_, rfl, fun k => ?_⟩
  cases k <;> rfl

private theorem bridge_of_fits (h : ∀ l ∈ s, l.value.Fits) (hp : p.stack = Stack.under ["bridge"] s) :
    ∃ o, p.bridge = .ok ⟨o, Leaf.replyDelayFrames.first s⟩ ∧ ∀ k, o.get k = (Leaf.seed k).first s := by
  have hparts := parts_section h (by simp [sections]) hp "struct BridgeConfig" ["seed", "reply_delay_frames"]
  have hdelay : (p.entry "reply_delay_frames").option .word32 ({} : BridgeOptions).replyDelayFrames = _ :=
    option_entry h hp .replyDelayFrames rfl
  have hseed : (p.entry "seed").stack = Stack.under ["bridge", "seed"] s := by
    show Stack.entry "seed" p.stack = _
    rw [hp]
    exact Stack.entry_section h ["bridge"] (by simp [sections])
  obtain ⟨o, ho, hget⟩ := offsets_of_fits h hseed
  simp only [bridge, hparts, hdelay, ho, bind, Except.bind]
  exact ⟨o, rfl, hget⟩

private theorem debug_of_fits (h : ∀ l ∈ s, l.value.Fits) (hp : p.stack = Stack.under ["debug"] s) :
    p.debug = .ok ⟨Leaf.logLevel.first s⟩ := by
  have hparts := parts_section h (by simp [sections]) hp "struct DebugConfig" ["log_level"]
  have hlevel : (p.entry "log_level").option .text ({} : DebugOptions).logLevel = _ := option_entry h hp .logLevel rfl
  simp only [debug, hparts, hlevel, bind, Except.bind]
  rfl

end Config.Place

/-- If all layers fit, all options can be read, and each is what the first layer says that has a value for it. -/
theorem Config.Stack.options_of_fits {s : Stack} (h : ∀ l ∈ s, l.value.Fits) :
    ∃ o, s.options = .ok o ∧ ∀ {α : Type} (leaf : Leaf α), o.get leaf = leaf.first s := by
  have hsection {key : String} (hkey : [key] ∈ sections) : (Place.entry ⟨[], s⟩ key).stack = under [key] s := by
    have hentry := entry_section h [] hkey
    rwa [under_nil] at hentry
  obtain ⟨seed, hbridge, hseed⟩ := Place.bridge_of_fits h (hsection (by simp [sections]))
  have hdebug := Place.debug_of_fits h (hsection (by simp [sections]))
  have hpanel := Place.panel_of_fits h (hsection (by simp [sections]))
  have hwindow := Place.window_of_fits h (hsection (by simp [sections]))
  simp only [options, hbridge, hdebug, hpanel, hwindow, bind, Except.bind]
  refine ⟨_, rfl, fun leaf => ?_⟩
  cases leaf with
  | seed k => exact hseed k
  | _ => rfl

end CameraPanel
