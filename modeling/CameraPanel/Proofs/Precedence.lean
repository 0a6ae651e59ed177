import CameraPanel.Config.Load
import CameraPanel.Proofs.EnvironmentTable

/-!
# Precedence of the sources

Each option comes from the source that counts most among those that speak of it: first the environment, then the file
of the user, then the file with the defaults.  What a source says of other options, or of things that are no options at
all, does not matter (`sources_by_precedence`).

Two keys make an exception to what a file says.  They are the keys of `Value.resolve?`: below the root, a table with
the key `standIn` is not itself but what it has there, and a table with the key `reserved` spoils the file.  A variable
whose text would be cut inside a character spoils everything, whatever it names (`special_keys_and_cut_texts`).
-/

namespace CameraPanel

/-! ### Special keys -/

namespace Config.Value

mutual

/-- Whether no table in a value has a special key. -/
def plain : Value → Bool
  | table entries =>
    (entries.lookup reserved).isNone && (entries.lookup standIn).isNone && plainEntries entries
  | list items => plainItems items
  | _ => true

def plainItems : List Value → Bool
  | [] => true
  | v :: rest => v.plain && plainItems rest

/-- Whether no table below a list of entries has a special key. -/
def plainEntries : List (String × Value) → Bool
  | [] => true
  | (_, v) :: rest => v.plain && plainEntries rest

end

mutual

/-- Without special keys a value stands for itself. -/
private theorem resolve?_of_plain {v : Value} (h : v.plain = true) : v.resolve? = some v := by
  cases v with
  | table entries =>
    simp only [plain, Bool.and_eq_true, Option.isNone_iff_eq_none] at h
    obtain ⟨⟨hreserved, hstandIn⟩, hentries⟩ := h
    simp [resolve?, resolveEntries?_of_plain hentries, hreserved, hstandIn]
  | list items =>
    simp only [plain] at h
    simp [resolve?, resolveItems?_of_plain h]
  | _ => rfl

private theorem resolveItems?_of_plain {items : List Value} (h : plainItems items = true) :
    resolveItems? items = some items := by
  cases items with
  | nil => rfl
  | cons v rest =>
    simp only [plainItems, Bool.and_eq_true] at h
    simp [resolveItems?, resolve?_of_plain h.1, resolveItems?_of_plain h.2]

private theorem resolveEntries?_of_plain {entries : List (String × Value)} (h : plainEntries entries = true) :
    resolveEntries? entries = some entries := by
  cases entries with
  | nil => rfl
  | cons e rest =>
    obtain ⟨key, v⟩ := e
    simp only [plainEntries, Bool.and_eq_true] at h
    simp [resolveEntries?, resolve?_of_plain h.1, resolveEntries?_of_plain h.2]

end

end Config.Value

/-! ### What the files say -/

namespace Config

/-- What a file says, as one table.  A file that does not exist says nothing. -/
inductive FileSays (disk : Disk) (path : String) : Value → Prop
  | absent (h : disk path = none) : FileSays disk path (.table [])
  | present {text : String} {entries resolved : List (String × Value)} (h : disk path = some text)
      (hread : Toml.read? text.toList = some entries) (hresolved : Value.resolveEntries? entries = some resolved) :
      FileSays disk path (.table resolved)

/-- The entries that are written in a text; none if it is not TOML. -/
def written (text : String) : List (String × Value) := (Toml.read? text.toList).getD []

private theorem read?_eq_written {text : String} (h : (Toml.read? text.toList).isSome = true) :
    Toml.read? text.toList = some (written text) :=
  (Option.getD_of_ne_none (Option.isSome_iff_ne_none.1 h) []).symm

/-- A file without special keys below its root says what is written in it. -/
theorem FileSays.of_plain {disk : Disk} {path text : String} (h : disk path = some text)
    (hread : (Toml.read? text.toList).isSome = true) (hplain : Value.plainEntries (written text) = true) :
    FileSays disk path (.table (written text)) :=
  .present h (read?_eq_written hread) (Value.resolveEntries?_of_plain hplain)

theorem in?_nothing {α : Type} (leaf : Leaf α) : leaf.in? (.table []) = none := by
  cases leaf <;> rfl

variable {disk : Disk} {path : String}

private theorem fileStack_of_none (h : disk path = none) : fileStack disk path = .ok [] := by rw [fileStack, h]

private theorem fileStack_of_resolved {text : String} {entries resolved : List (String × Value)}
    (h : disk path = some text)
    (hread : Toml.read? text.toList = some entries) (hresolved : Value.resolveEntries? entries = some resolved) :
    fileStack disk path = .ok [⟨.file path, .table resolved⟩] := by
  simp only [fileStack, h, hread, Option.bind_eq_bind, Option.bind_some, hresolved]

/-- The layers of a file that says something readable. -/
private theorem FileSays.exists_fileStack {v : Value} (h : FileSays disk path v) :
    ∃ s, fileStack disk path = .ok s ∧ (∀ l ∈ s, l.value = v) ∧
      ∀ {α : Type} (leaf : Leaf α), (s.findSome? fun l => leaf.in? l.value) = leaf.in? v := by
  cases h with
  | absent h =>
    refine ⟨[], fileStack_of_none h, by simp, ?_⟩
    intro α leaf
    rw [in?_nothing]
    rfl
  | @present text entries resolved h hread hresolved =>
    refine ⟨_, fileStack_of_resolved h hread hresolved, by simp, ?_⟩
    intro α leaf
    exact List.findSome?_singleton

private theorem fileStack_of_not_says (h : ∀ v, ¬ FileSays disk path v) :
    fileStack disk path = .error (.malformed path) := by
  cases hdisk : disk path with
  | none => exact absurd (.absent hdisk) (h _)
  | some text =>
    have hnone : (Toml.read? text.toList).bind Value.resolveEntries? = none := by
      rw [Option.bind_eq_none_iff]
      intro entries hread
      cases hresolved : Value.resolveEntries? entries with
      | none => rfl
      | some resolved => exact absurd (.present hdisk hread hresolved) (h _)
    simp only [fileStack, hdisk, Option.bind_eq_bind, hnone]

/-! ### Disks with two files -/

/-- A path of a file ends with its name. -/
private theorem exists_filePath_eq (directory : String) :
    ∃ start : List Char, ∀ name, (filePath directory name).toList = start ++ name.toList := by
  have hjoin : ∀ parts : List (List Char), ∃ start, ∀ name, ['/'].intercalate (parts ++ [name]) = start ++ name := by
    intro parts
    induction parts with
    | nil => exact ⟨[], fun name => List.intercalate_singleton⟩
    | cons part rest ih =>
      obtain ⟨start, hstart⟩ := ih
      refine ⟨part ++ ['/'] ++ start, fun name => ?_⟩
      rw [List.cons_append, List.intercalate_cons_of_ne_nil (by simp), hstart]
      simp only [List.append_assoc]
  obtain ⟨start, hstart⟩ := hjoin ((pathParts directory).map String.toList)
  refine ⟨(if directory.startsWith "/" then "/" else "").toList ++ start, fun name => ?_⟩
  rw [filePath, String.toList_append, String.toList_intercalate, List.map_append, List.append_assoc, ← hstart]
  rfl

private theorem filePath_injective (directory : String) {name name' : String}
    (h : filePath directory name = filePath directory name') : name = name' := by
  obtain ⟨start, hstart⟩ := exists_filePath_eq directory
  have hlist : start ++ name.toList = start ++ name'.toList := by rw [← hstart, ← hstart, h]
  exact String.toList_inj.1 (List.append_cancel_left hlist)

/-- The disk with these texts of the two files and nothing else. -/
def twoFiles (directory : String) (defaults user : Option String) : Disk := fun path =>
  if path = filePath directory "default.toml" then defaults
  else if path = filePath directory "user.toml" then user
  else none

theorem twoFiles_defaults (directory : String) (defaults user : Option String) :
    twoFiles directory defaults user (filePath directory "default.toml") = defaults := if_pos rfl

theorem twoFiles_user (directory : String) (defaults user : Option String) :
    twoFiles directory defaults user (filePath directory "user.toml") = user := by
  have hne : filePath directory "user.toml" ≠ filePath directory "default.toml" :=
    fun h => absurd (filePath_injective directory h) (by decide)
  rw [twoFiles, if_neg hne, if_pos rfl]

/-! ### Loading -/

/-- If all sources fit, each option is loaded from the first source that has a value for it. -/
theorem loadFrom_of_fits {directory : String} {env : Environment} {defaults user : Value}
    (hdefaults : FileSays disk (filePath directory "default.toml") defaults)
    (huser : FileSays disk (filePath directory "user.toml") user) (hfits : defaults.Fits) (hfits' : user.Fits)
    (henv : env.Fits) :
    ∃ o, loadFrom directory disk env = .ok o ∧ ∀ {α : Type} (leaf : Leaf α),
      o.get leaf = (((leaf.set? env).or (leaf.in? user)).or (leaf.in? defaults)).getD leaf.default := by
  obtain ⟨v, hv, hvfits, hvset⟩ := Environment.table?_of_fits henv
  obtain ⟨sd, hsd, hsdmem, hsdfirst⟩ := hdefaults.exists_fileStack
  obtain ⟨su, hsu, hsumem, hsufirst⟩ := huser.exists_fileStack
  have hall : ∀ l ∈ [⟨.environment, v⟩] ++ su ++ sd, l.value.Fits := by
    intro l hl
    rw [List.mem_append, List.mem_append, List.mem_singleton] at hl
    rcases hl with (rfl | hl) | hl
    · exact hvfits
    · exact hsumem l hl ▸ hfits'
    · exact hsdmem l hl ▸ hfits
  obtain ⟨o, ho, hget⟩ := Stack.options_of_fits hall
  refine ⟨o, ?_, ?_⟩
  · simp only [loadFrom, environmentStack, hv, hsd, hsu, bind, Except.bind]
    exact ho
  · intro α leaf
    have hset : leaf.in? v = leaf.set? env := by rw [Leaf.in?, hvset, Leaf.set?]
    rw [hget, Leaf.first, List.findSome?_append, List.findSome?_append, hsdfirst, hsufirst, List.findSome?_singleton,
      hset]

theorem seed_from_files (k : Field) (env : Environment) (user defaults : Value) :
    ((((Leaf.seed k).set? env).or ((Leaf.seed k).in? user)).or ((Leaf.seed k).in? defaults)).getD
      (Leaf.seed k).default = (((Leaf.seed k).in? user).or ((Leaf.seed k).in? defaults)).getD k.default := by
  rw [Leaf.set?_seed, Option.none_or, Leaf.default_seed]

private theorem loadFrom_of_not_says {directory name : String} (hname : name ∈ ["default.toml", "user.toml"])
    (h : ∀ v, ¬ FileSays disk (filePath directory name) v) (env : Environment) :
    ∃ e, loadFrom directory disk env = .error e := by
  have hstack := fileStack_of_not_says h
  unfold loadFrom
  cases environmentStack env with
  | error e => exact ⟨e, rfl⟩
  | ok environment =>
    rw [List.mem_cons, List.mem_singleton] at hname
    rcases hname with rfl | rfl
    · exact ⟨_, by rw [hstack]; rfl⟩
    · cases fileStack disk (filePath directory "default.toml") with
      | error e => exact ⟨e, rfl⟩
      | ok defaults => exact ⟨_, by rw [hstack]; rfl⟩

/-- Each option has the value of the environment, else that of the user's file, else that of the file with the defaults,
else its own default, provided that every source that speaks of a section gives a table for it, and every source that
speaks of an option gives a value of its kind; in the environment the last variable counts.  The seeds come from the
files alone.  With a file that is not TOML nothing is loaded. -/
theorem sources_by_precedence (directory : String) (disk : Disk) (env : Environment) :
    (∀ defaults user : Value,
      FileSays disk (filePath directory "default.toml") defaults → FileSays disk (filePath directory "user.toml") user →
      defaults.Fits → user.Fits → env.Fits →
      ∃ o, loadFrom directory disk env = .ok o ∧
        (∀ {α : Type} (leaf : Leaf α),
          o.get leaf = (((leaf.set? env).or (leaf.in? user)).or (leaf.in? defaults)).getD leaf.default) ∧
        ∀ k, o.bridge.seed.get k = (((Leaf.seed k).in? user).or ((Leaf.seed k).in? defaults)).getD k.default) ∧
    ∀ name ∈ ["default.toml", "user.toml"], ∀ text, disk (filePath directory name) = some text →
      Toml.read? text.toList = none → ∃ e, loadFrom directory disk env = .error e := by
  refine ⟨?_, ?_⟩
  · intro defaults user hdefaults huser hfits hfits' henv
    obtain ⟨o, ho, hget⟩ := loadFrom_of_fits hdefaults huser hfits hfits' henv
    exact ⟨o, ho, hget, fun k => (hget (.seed k)).trans (seed_from_files k env user defaults)⟩
  · intro name hname text htext hread
    refine loadFrom_of_not_says hname ?_ env
    rintro v (habsent | ⟨hpresent, hread', -⟩)
    · cases habsent.symm.trans htext
    · obtain rfl := Option.some.inj (hpresent.symm.trans htext)
      cases hread'.symm.trans hread

/-- All three sources give the width, and each file gives something that the other sources do not.  The first variable
gives no width at all, but it is not the last one. -/
theorem width_from_environment :
    ∃ o, loadFrom directory
        (twoFiles directory (some "[window]\nheight = 200\nwidth = 320\n")
          (some "[window]\nwidth = 640\ntitle = 'x'\n"))
        [("CAMSYNC_WINDOW__WIDTH", "wide"), ("camsync_window__width", "800")] = .ok o ∧
      o.window.title = "x" ∧ o.window.width = 800 ∧ o.window.height = 200 ∧ o.bridge.replyDelayFrames = 30 := by
  obtain ⟨o, ho, hget, -⟩ := (sources_by_precedence directory _
      [("CAMSYNC_WINDOW__WIDTH", "wide"), ("camsync_window__width", "800")]).1 _ _
    (.of_plain (twoFiles_defaults directory (some "[window]\nheight = 200\nwidth = 320\n") _) (by decide +kernel)
      (by decide +kernel))
    (.of_plain (twoFiles_user directory _ (some "[window]\nwidth = 640\ntitle = 'x'\n")) (by decide +kernel)
      (by decide +kernel))
    (by decide +kernel) (by decide +kernel) (by decide +kernel)
  exact ⟨o, ho, (hget .title).trans (by decide +kernel), (hget .width).trans (by decide +kernel),
    (hget .height).trans (by decide +kernel), (hget .replyDelayFrames).trans (by decide +kernel)⟩

/-- A table with the key `reserved`, and no option. -/
def reservedText : String := "[window]\n___figment_value_id = 5\n"

/-- A table with the key `standIn`, and no option. -/
def standInText : String := "[bridge]\nseed.___figment_value_value = [1, 2]\n"

/-- A text between quotes that would be cut inside its first character. -/
def cutText : String := "\"é\\t\""

/-- Three exceptions from what files and variables seem to say.  A table with the key `reserved` spoils a file that is
TOML and fits.  A table with the key `standIn` sets a seed although the file does not speak of it.  A text that would
be cut inside a character spoils everything, although its variable names no option. -/
theorem special_keys_and_cut_texts :
    (Toml.read? reservedText.toList = some (written reservedText) ∧ (Value.table (written reservedText)).Fits ∧
      ∃ e, loadFrom directory (twoFiles directory (some reservedText) none) [] = .error e) ∧
    (Toml.read? standInText.toList = some (written standInText) ∧ (Value.table (written standInText)).Fits ∧
      (Leaf.seed .posX).in? (.table (written standInText)) = none ∧
      ∃ o, loadFrom directory (twoFiles directory (some standInText) none) [] = .ok o ∧
        o.bridge.seed.posX ≠ Field.posX.default) ∧
    (Environment.keys? "CAMSYNC_WINDOW__NOTE" = some ["window", "note"] ∧
      ∃ e, loadFrom directory (twoFiles directory none none) [("CAMSYNC_WINDOW__NOTE", cutText)] = .error e) := by
  refine ⟨⟨read?_eq_written (by decide +kernel), by decide +kernel, ?_⟩,
    ⟨read?_eq_written (by decide +kernel), by decide +kernel, by decide +kernel, ?_⟩, rfl, ?_⟩
  · have hnone : Value.resolveEntries? (written reservedText) = none :=
      Option.isNone_iff_eq_none.1 (by decide +kernel)
    refine loadFrom_of_not_says List.mem_cons_self ?_ []
    rintro v (habsent | ⟨hpresent, hread, hresolved⟩)
    · rw [twoFiles_defaults] at habsent
      cases habsent
    · rw [twoFiles_defaults] at hpresent
      cases hpresent
      rw [written, hread] at hnone
      cases hnone.symm.trans hresolved
  · have hresolved : (Value.resolveEntries? (written standInText)).isSome = true := by decide +kernel
    have hdefaults := fileStack_of_resolved (twoFiles_defaults directory (some standInText) none)
      (read?_eq_written (by decide +kernel))
      (Option.getD_of_ne_none (Option.isSome_iff_ne_none.1 hresolved) []).symm
    have huser := fileStack_of_none (twoFiles_user directory (some standInText) none)
    have hposX : ((loadFrom directory (twoFiles directory (some standInText) none) []).toOption.map
        fun o => o.bridge.seed.posX) = some (.ofInt 1) := by
      rw [loadFrom, hdefaults, huser]
      decide +kernel
    cases hload : loadFrom directory (twoFiles directory (some standInText) none) [] with
    | error e =>
      rw [hload] at hposX
      cases hposX
    | ok o =>
      rw [hload] at hposX
      have hone : o.bridge.seed.posX = .ofInt 1 := Option.some.inj hposX
      refine ⟨o, rfl, ?_⟩
      rw [hone]
      decide
  · have hcut : Environment.value? cutText = none := Option.isNone_iff_eq_none.1 (by decide +kernel)
    have htable : Environment.table? [("CAMSYNC_WINDOW__NOTE", cutText)] = none := by
      show (Environment.add? (.table []) "CAMSYNC_WINDOW__NOTE" cutText).bind some = none
      rw [Environment.add?, hcut]
      rfl
    exact ⟨.cut, by simp only [loadFrom, environmentStack, htable]; rfl⟩

end Config

end CameraPanel
