import CameraPanel.Config.Environment
import CameraPanel.Proofs.OptionLeaves
import Mathlib.Data.List.Induction

/-!
# The environment as a table

Each variable adds one value to the table of the environment, at the path of keys that its name stands for.  What the
table has at other paths stays: at a path that neither leads to the added value nor passes through it, nothing changes
(`Value.at?_merge_nest_of_apart`).  So if no variable names a whole section, the sections of the table are tables, and
at the path of an option stands the value of the last variable that names it (`Environment.table?_of_fits`), whatever
the variables before it say of the option.

Keys in the names of variables are in lower case.  The seeds have keys with capitals, so that no variable names one.
-/

namespace CameraPanel

namespace Config.Value

/-! ### Merging at a path -/

private theorem merge_of_above (below : Value) {v : Value} (h : v.isTable = false) : below.merge v = v := by
  cases v with
  | table entries => cases h
  | _ => simp only [merge]

private theorem merge_of_below {below : Value} (h : below.isTable = false) (v : Value) : below.merge v = v := by
  cases v with
  | table entries =>
    cases below with
    | table others => cases h
    | _ => simp only [merge]
  | _ => simp only [merge]

/-- Merging at a path goes on below the first key, into the value there or, if there is none, into one without
entries. -/
private theorem entry?_merge_nest_self (said : Value) (key : String) (path : List String) (v : Value) :
    ∃ below : Value, entry? key (said.merge (nest (key :: path) v)) = some (below.merge (nest path v)) ∧
      ∀ q ≠ [], below.at? q = (said.entry? key).bind (at? q) := by
  cases hentry : said.entry? key with
  | none =>
    refine ⟨.bool false, ?_, ?_⟩
    · rw [merge_of_below (rfl : (Value.bool false).isTable = false)]
      cases said with
      | table entries =>
        have hlookup : entries.lookup key = none := hentry
        simp [nest, merge, entry?, lookup_mergeEntries, hlookup]
      | _ => simp [nest, merge, entry?]
    · rintro (_ | ⟨k, q⟩) hq
      · exact absurd rfl hq
      · rfl
  | some w =>
    refine ⟨w, ?_, fun q _ => rfl⟩
    cases said with
    | table entries =>
      have hlookup : entries.lookup key = some w := hentry
      simp [nest, merge, entry?, lookup_mergeEntries, hlookup]
    | _ => cases hentry

private theorem entry?_merge_nest_of_ne (said : Value) {key other : String} (h : other ≠ key) (path : List String)
    (v : Value) :
    entry? other (said.merge (nest (key :: path) v)) = said.entry? other := by
  cases said with
  | table entries =>
    have hother : (other == key) = false := beq_eq_false_iff_ne.2 h
    simp only [nest, merge, entry?, lookup_mergeEntries, List.lookup_cons, hother, List.lookup_nil]
  | _ => simp [nest, merge, entry?, h]

private theorem isTable_merge_nest (said : Value) (key : String) (path : List String) (v : Value) :
    (said.merge (nest (key :: path) v)).isTable = true := by
  cases said <;> simp [nest, merge, isTable]

/-- At the end of the path stands the value, if it is no table. -/
private theorem at?_merge_nest_self (said : Value) (path : List String) {v : Value} (h : v.isTable = false) :
    (said.merge (nest path v)).at? path = some v := by
  induction path generalizing said with
  | nil => exact congrArg some (merge_of_above said h)
  | cons key path ih =>
    obtain ⟨below, hbelow, -⟩ := entry?_merge_nest_self said key path v
    rw [at?, hbelow]
    exact ih below

/-- On the way to the value there are tables. -/
private theorem isTable_at?_merge_nest {q path : List String} (h : q <+: path) (hne : q ≠ path) (said v : Value)
    {w : Value} (hw : (said.merge (nest path v)).at? q = some w) : w.isTable = true := by
  induction path generalizing said q with
  | nil => exact absurd (List.prefix_nil.1 h) hne
  | cons key path ih =>
    cases q with
    | nil =>
      obtain rfl : said.merge (nest (key :: path) v) = w := Option.some.inj hw
      exact isTable_merge_nest said key path v
    | cons k q =>
      obtain ⟨rfl, hq⟩ := List.cons_prefix_cons.1 h
      obtain ⟨below, hbelow, -⟩ := entry?_merge_nest_self said k path v
      rw [at?, hbelow] at hw
      exact ih hq (fun heq => hne (congrArg (k :: ·) heq)) below hw

/-- What does not lie on the path is as before. -/
private theorem at?_merge_nest_of_apart {q path : List String} (h : ¬ q <+: path) (h' : ¬ path <+: q) (said v : Value) :
    (said.merge (nest path v)).at? q = said.at? q := by
  induction path generalizing said q with
  | nil => exact absurd List.nil_prefix h'
  | cons key path ih =>
    cases q with
    | nil => exact absurd List.nil_prefix h
    | cons k q =>
      by_cases hk : k = key
      · subst hk
        rw [List.cons_prefix_cons] at h h'
        have hq : q ≠ [] := fun heq => h ⟨rfl, heq ▸ List.nil_prefix⟩
        obtain ⟨below, hbelow, hat⟩ := entry?_merge_nest_self said k path v
        calc (said.merge (nest (k :: path) v)).at? (k :: q)
            = (below.merge (nest path v)).at? q := by rw [at?, hbelow]; rfl
          _ = below.at? q := ih (fun hp => h ⟨rfl, hp⟩) (fun hp => h' ⟨rfl, hp⟩) below
          _ = said.at? (k :: q) := hat q hq
      · rw [at?, at?, entry?_merge_nest_of_ne said hk]

end Config.Value

namespace Config.Environment

/-! ### Variables and options -/

private theorem findSome?_reverse_concat {β γ : Type} (f : β → Option γ) (l : List β) (b : β) :
    (l ++ [b]).reverse.findSome? f = (f b).or (l.reverse.findSome? f) := by
  rw [List.reverse_concat, List.findSome?_cons]
  cases f b <;> rfl

/-- The value of the last variable that names a setting. -/
def given? (env : Environment) (path : List String) : Option Value :=
  env.reverse.findSome? fun e => if keys? e.1 = some path then value? e.2 else none

private theorem given?_concat (env : Environment) (name text : String) (path : List String) :
    given? (env ++ [(name, text)]) path =
      (if keys? name = some path then value? text else none).or (env.given? path) := findSome?_reverse_concat _ env _

private theorem exists_of_given? {env : Environment} {path : List String} {v : Value} (h : env.given? path = some v) :
    ∃ name text, (name, text) ∈ env ∧ keys? name = some path ∧ value? text = some v := by
  obtain ⟨⟨name, text⟩, hmem, hv⟩ := List.exists_of_findSome?_eq_some h
  by_cases hkeys : keys? name = some path
  · exact ⟨name, text, List.mem_reverse.1 hmem, hkeys, (if_pos hkeys).symm.trans hv⟩
  · cases (if_neg hkeys).symm.trans hv

/-- The path and the value of the last variable that names a setting or something inside of it. -/
def latest? (env : Environment) (path : List String) : Option (List String × Value) :=
  env.reverse.findSome? fun e =>
    (keys? e.1).bind fun named => if path <+: named then (value? e.2).map fun v => (named, v) else none

private theorem latest?_concat (env : Environment) (name text : String) (path : List String) :
    latest? (env ++ [(name, text)]) path =
      ((keys? name).bind fun named => if path <+: named then (value? text).map fun v => (named, v) else none).or
        (env.latest? path) := findSome?_reverse_concat _ env _

/-- Each variable that counts has a text that can be read and names no whole section.  The last variable that names an
option or something inside of it names the option, and has a value of its kind; what others say of it does not
matter. -/
structure Fits (env : Environment) : Prop where
  each : ∀ name text path, (name, text) ∈ env → keys? name = some path →
    (∃ v, value? text = some v) ∧ ∀ q ∈ sections, ¬ path <+: q
  last : ∀ {α : Type} (leaf : Leaf α) (path : List String) (v : Value), env.latest? leaf.path = some (path, v) →
    path = leaf.path ∧ ∃ x, leaf.kind.read v = .ok x

instance (env : Environment) : Decidable env.Fits :=
  decidable_of_iff
    ((∀ e ∈ env, ∀ path ∈ keys? e.1, (value? e.2).isSome = true ∧ ∀ q ∈ sections, ¬ path <+: q) ∧
      ∀ l ∈ leaves, ∀ p ∈ env.latest? l.2.path, p.1 = l.2.path ∧ (l.2.kind.read p.2).isOk = true) <| by
    constructor
    · rintro ⟨heach, hlast⟩
      refine ⟨fun name text path hmem hkeys => ?_, fun leaf path v hlatest => ?_⟩
      · obtain ⟨hvalue, hapart⟩ := heach _ hmem path hkeys
        exact ⟨Option.isSome_iff_exists.1 hvalue, hapart⟩
      · obtain ⟨hpath, hread⟩ := hlast _ (mem_leaves leaf) _ hlatest
        exact ⟨hpath, isOk_iff.1 hread⟩
    · rintro ⟨heach, hlast⟩
      refine ⟨fun e hmem path hkeys => ?_, fun l _ p hlatest => ?_⟩
      · obtain ⟨hvalue, hapart⟩ := heach e.1 e.2 path hmem hkeys
        exact ⟨Option.isSome_iff_exists.2 hvalue, hapart⟩
      · obtain ⟨hpath, hread⟩ := hlast l.2 p.1 p.2 hlatest
        exact ⟨hpath, isOk_iff.2 hread⟩

/-! ### One variable -/

variable {path : List String}

private theorem tabular_merge (h : ∀ q ∈ sections, ¬ path <+: q) {said : Value} (hsaid : said.Tabular) (v : Value) :
    (said.merge (.nest path v)).Tabular := by
  intro q hq w hw
  by_cases hway : q <+: path
  · have hne : q ≠ path := by
      rintro rfl
      exact h q hq List.prefix_rfl
    exact Value.isTable_at?_merge_nest hway hne said v hw
  · rw [Value.at?_merge_nest_of_apart hway (h q hq)] at hw
    exact hsaid q hq w hw

/-- A variable leaves the options alone that it does not name and names nothing inside of. -/
private theorem at?_leaf_merge (h : ∀ q ∈ sections, ¬ path <+: q) {α : Type} {leaf : Leaf α}
    (hway : ¬ leaf.path <+: path) (said v : Value) :
    (said.merge (.nest path v)).at? leaf.path = said.at? leaf.path := by
  refine Value.at?_merge_nest_of_apart hway ?_ said v
  intro hpath
  obtain ⟨q, hq, key, hleaf⟩ := exists_section leaf
  rw [hleaf, List.prefix_concat_iff] at hpath
  rcases hpath with heq | hsection
  · exact hway (heq.trans hleaf.symm ▸ List.prefix_rfl)
  · exact h q hq hsection

/-- A value has for a setting what the last variable says of it, unless that one gives a table or names something inside
of the setting. -/
private structure Shows (said : Value) (env : Environment) (path : List String) : Prop where
  unset : env.latest? path = none → said.at? path = none ∧ env.given? path = none
  set : ∀ v, env.latest? path = some (path, v) → v.isTable = false →
    said.at? path = some v ∧ env.given? path = some v

private theorem Shows.add {said : Value} {env : Environment} {α : Type} {leaf : Leaf α}
    (hsaid : Shows said env leaf.path) {name text : String} {v : Value} (hkeys : keys? name = some path)
    (hv : value? text = some v) (h : ∀ q ∈ sections, ¬ path <+: q) :
    Shows (said.merge (.nest path v)) (env ++ [(name, text)]) leaf.path := by
  have hlatest : latest? (env ++ [(name, text)]) leaf.path =
      (if leaf.path <+: path then some (path, v) else none).or (env.latest? leaf.path) := by
    rw [latest?_concat, hkeys, Option.bind_some, hv]
    rfl
  have hgiven : given? (env ++ [(name, text)]) leaf.path =
      (if path = leaf.path then some v else none).or (env.given? leaf.path) := by
    rw [given?_concat, hkeys, hv]
    simp only [Option.some.injEq]
  by_cases hway : leaf.path <+: path
  · rw [if_pos hway] at hlatest
    constructor
    · intro hnone
      cases hlatest.symm.trans hnone
    · intro w hw htable
      obtain ⟨rfl, rfl⟩ := Prod.mk.inj (Option.some.inj (hlatest.symm.trans hw))
      exact ⟨Value.at?_merge_nest_self said leaf.path htable, by rw [hgiven, if_pos rfl]; rfl⟩
  · have hne : path ≠ leaf.path := fun heq => hway (heq ▸ List.prefix_rfl)
    rw [if_neg hway, Option.none_or] at hlatest
    rw [if_neg hne, Option.none_or] at hgiven
    refine ⟨?_, ?_⟩
    · rw [hlatest, hgiven, at?_leaf_merge h hway]
      exact hsaid.unset
    · rw [hlatest, hgiven, at?_leaf_merge h hway]
      exact hsaid.set

/-! ### All variables -/

private theorem table?_concat (env : Environment) (name text : String) :
    table? (env ++ [(name, text)]) = (table? env).bind fun said => add? said name text := by
  rw [table?, List.foldlM_append]
  show (table? env).bind (fun said => (add? said name text).bind some) = _
  exact congrArg _ (funext fun said => Option.bind_fun_some _)

private theorem exists_table? {env : Environment} (h : ∀ name text path, (name, text) ∈ env → keys? name = some path →
      (∃ v, value? text = some v) ∧ ∀ q ∈ sections, ¬ path <+: q) :
    ∃ said, env.table? = some said ∧ said.Tabular ∧ ∀ {α : Type} (leaf : Leaf α), Shows said env leaf.path := by
  induction env using List.reverseRecOn with
  | nil =>
    have hfits : (Value.table []).Fits := by decide
    refine ⟨.table [], rfl, hfits.tabular, fun leaf => ⟨fun _ => ⟨?_, rfl⟩, fun v hv => ?_⟩⟩
    · cases leaf <;> rfl
    · cases hv
  | append_singleton env e ih =>
    obtain ⟨name, text⟩ := e
    obtain ⟨said, hsaid, htabular, hshows⟩ := ih fun n t path hmem => h n t path (List.mem_append_left _ hmem)
    rw [table?_concat, hsaid, Option.bind_some, add?]
    cases hkeys : keys? name with
    | none =>
      refine ⟨said, rfl, htabular, fun leaf => ?_⟩
      have hlatest : latest? (env ++ [(name, text)]) leaf.path = latest? env leaf.path := by
        rw [latest?_concat, hkeys]
        rfl
      have hgiven : given? (env ++ [(name, text)]) leaf.path = given? env leaf.path := by
        rw [given?_concat, hkeys]
        rfl
      exact ⟨by rw [hlatest, hgiven]; exact (hshows leaf).unset, by rw [hlatest, hgiven]; exact (hshows leaf).set⟩
    | some path =>
      obtain ⟨⟨v, hv⟩, hapart⟩ := h name text path (by simp) hkeys
      exact ⟨said.merge (.nest path v), by rw [hv]; rfl, tabular_merge hapart htabular v,
        fun leaf => (hshows leaf).add hkeys hv hapart⟩

/-- The table of an environment that fits has for each option what the last variable says that names it. -/
theorem table?_of_fits {env : Environment} (h : env.Fits) :
    ∃ said, env.table? = some said ∧ said.Fits ∧
      ∀ {α : Type} (leaf : Leaf α), said.at? leaf.path = env.given? leaf.path := by
  obtain ⟨said, hsaid, htabular, hshows⟩ := exists_table? h.each
  have hleaf : ∀ {α : Type} (leaf : Leaf α), said.at? leaf.path = env.given? leaf.path ∧
      ∀ w, said.at? leaf.path = some w → ∃ x, leaf.kind.read w = .ok x := by
    intro α leaf
    cases hlatest : env.latest? leaf.path with
    | none =>
      obtain ⟨hat, hgiven⟩ := (hshows leaf).unset hlatest
      exact ⟨hat.trans hgiven.symm, fun w hw => by cases hat.symm.trans hw⟩
    | some p =>
      obtain ⟨path, v⟩ := p
      obtain ⟨rfl, x, hx⟩ := h.last leaf path v hlatest
      obtain ⟨hat, hgiven⟩ := (hshows leaf).set v hlatest (Leaf.isTable_of_read hx)
      refine ⟨hat.trans hgiven.symm, fun w hw => ?_⟩
      obtain rfl : v = w := Option.some.inj (hat.symm.trans hw)
      exact ⟨x, hx⟩
  exact ⟨said, hsaid, ⟨htabular, fun leaf => (hleaf leaf).2⟩, fun leaf => (hleaf leaf).1⟩

/-! ### Lower case -/

private theorem isUpper_toLower (c : Char) : c.toLower.isUpper = false := by
  unfold Char.toLower
  split
  · rename_i hupper
    have hcode : (c.val + 32).toNat = c.val.toNat + 32 := by
      have hle : c.val.toNat ≤ 90 := hupper.2
      rw [UInt32.toNat_add]
      exact Nat.mod_eq_of_lt (show c.val.toNat + 32 < 4294967296 by omega)
    refine decide_eq_false fun hrange => ?_
    have hle : (c.val + 32).toNat ≤ 90 := hrange.2
    have hge : 65 ≤ c.val.toNat := hupper.1
    omega
  · rename_i hnot
    exact decide_eq_false hnot

/-- The keys that a variable names have no capitals. -/
private theorem isUpper_of_keys? {name : String} {path : List String} (h : keys? name = some path) {key : String}
    (hkey : key ∈ path) {c : Char} (hc : c ∈ key.toList) : c.isUpper = false := by
  simp only [keys?] at h
  split at h
  · split at h
    · cases h
    · obtain rfl := Option.some.inj h
      obtain ⟨cs, -, rfl⟩ := List.mem_map.1 hkey
      rw [String.toList_ofList] at hc
      obtain ⟨c, -, rfl⟩ := List.mem_map.1 hc
      exact isUpper_toLower c
  · cases h

/-- The keys of the seeds have capitals. -/
theorem name_not_mem_keys? {name : String} {path : List String} (h : keys? name = some path) (k : Field) :
    k.name ∉ path := by
  intro hmem
  have hcapital : k.name.toList.any Char.isUpper = true := by cases k <;> decide
  obtain ⟨c, hc, hupper⟩ := List.any_eq_true.1 hcapital
  rw [isUpper_of_keys? h hmem hc] at hupper
  cases hupper

/-- No variable names a seed. -/
private theorem given?_seed (env : Environment) (k : Field) : env.given? (Leaf.seed k).path = none := by
  cases hgiven : env.given? (Leaf.seed k).path with
  | none => rfl
  | some v =>
    obtain ⟨name, text, -, hkeys, -⟩ := exists_of_given? hgiven
    exact absurd (by simp [Leaf.path]) (name_not_mem_keys? hkeys k)

end Config.Environment

/-- What the last variable that names an option gives for it, if it gives something that can be read. -/
def Leaf.set? {α : Type} (leaf : Leaf α) (env : Config.Environment) : Option α :=
  (env.given? leaf.path).bind fun v => (leaf.kind.read v).toOption

theorem Leaf.set?_seed (k : Field) (env : Config.Environment) : (Leaf.seed k).set? env = none := by
  rw [set?, env.given?_seed]
  rfl

end CameraPanel
