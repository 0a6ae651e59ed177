import CameraPanel.Proofs.ChunkGrammar
import CameraPanel.Proofs.Precedence

/-!
# Variables below the seeds

The keys of the seeds have capitals, and the keys in the names of variables have none.  A variable that spells out the
name of a seed therefore names no option at all, in whichever case it is written.  The number in it is read, and it has
no effect: the options are the same as without the variable (`seed_variable_has_no_effect`).
-/

namespace CameraPanel

/-! ### Literals as values of variables -/

/-- A literal with a point starts with a digit, a point or a sign. -/
private theorem Literal.Denotes.head_of_point {F : Format} {cs : List Char} {x : Binary F} (h : Denotes F cs x)
    (hpoint : '.' ∈ cs) : ∃ c rest, cs = c :: rest ∧ (c.isDigit = true ∨ c = '.' ∨ c = '+' ∨ c = '-') := by
  -- The words have no point.
  have hword {s word : List Char} {negative : Bool} (hs : IsSign s negative)
      (hmem : word.map Char.toLower ∈ nanWord :: infinityWords) : '.' ∉ s ++ word := by
    rw [List.mem_append]
    rintro (hsign | halpha)
    · cases hs <;> simp at hsign
    · exact absurd (isAlpha_of_mem_word hmem halpha) (by decide)
  cases h with
  | infinity hs hmem => exact absurd hpoint (hword hs (List.mem_cons_of_mem _ hmem))
  | nan hs hmem => exact absurd hpoint (hword hs (List.mem_cons.2 (Or.inl hmem)))
  | decimal hs hbody =>
    cases hs with
    | none =>
      obtain ⟨c, rest, rfl, hc⟩ := hbody.head
      exact ⟨c, rest, rfl, hc.imp_right Or.inl⟩
    | plus => exact ⟨'+', _, rfl, by simp⟩
    | minus => exact ⟨'-', _, rfl, by simp⟩

instance (c : Char) : Decidable (Literal.IsLiteralChar c) :=
  inferInstanceAs (Decidable (c.isAlphanum = true ∨ c = '+' ∨ c = '-' ∨ c = '.'))

namespace Config.Environment

private theorem isSpace_of_isLiteralChar {c : Char} (h : Literal.IsLiteralChar c) : isSpace c = false := by
  rw [Bool.eq_false_iff]
  intro hspace
  simp only [isSpace, Bool.or_eq_true, beq_iff_eq] at hspace
  rcases hspace with (((rfl | rfl) | rfl) | rfl) | rfl <;> exact absurd h (by decide)

private theorem isSeparator_of_isLiteralChar {c : Char} (h : Literal.IsLiteralChar c) : isSeparator c = false := by
  rw [Bool.eq_false_iff]
  intro hsep
  simp only [isSeparator, Bool.or_eq_true, beq_iff_eq] at hsep
  rcases hsep with (((rfl | rfl) | rfl) | rfl) | rfl <;> exact absurd h (by decide)

/-- A word is read up to its end. -/
private theorem readValue_word (n : Nat) {c : Char} {rest : List Char}
    (hc : c.isDigit = true ∨ c = '.' ∨ c = '+' ∨ c = '-') (h : ∀ d ∈ c :: rest, Literal.IsLiteralChar d) :
    readValue (n + 1) (c :: rest) = .ok (wordValue (Text.trim (c :: rest)), []) := by
  have hspan : (c :: rest).span (fun d => !isSeparator d) = (c :: rest, []) := by
    have hall : ∀ d ∈ c :: rest, (!isSeparator d) = true :=
      fun d hd => by rw [isSeparator_of_isLiteralChar (h d hd)]; rfl
    rw [List.span_eq_takeWhile_dropWhile, List.takeWhile_eq_self_iff.2 hall, List.dropWhile_eq_nil_iff.2 hall]
  unfold readValue
  rw [List.dropWhile_cons_of_neg (by simp [isSpace_of_isLiteralChar (h c List.mem_cons_self)])]
  dsimp only
  -- No other form of a value starts with such a character.
  split
  case h_8 =>
    rw [hspan]
    rfl
  all_goals
    rename_i heq
    cases heq
    exact absurd hc (by decide)

/-- A literal with a point is read as the number that it denotes. -/
private theorem value?_of_literal {text : String} {x : Double} (hpoint : '.' ∈ text.toList)
    (hx : Format.double.ofLiteral? text.toList = some x) : value? text = some (.float x) := by
  have hdenotes := Format.ofLiteral?_eq_some_iff.1 hx
  have hliteral : ∀ c ∈ text.toList, Literal.IsLiteralChar c := fun c hc => hdenotes.isLiteralChar hc
  have htrim : Text.trim text.toList = text.toList :=
    Text.trim_eq_self (fun c hc => (hliteral c (List.mem_of_mem_head? hc)).plain.1)
      fun c hc => (hliteral c (List.mem_of_mem_getLast? hc)).plain.1
  have hword : wordValue text.toList = .float x := by
    simp only [wordValue, List.contains_iff_mem.2 hpoint, hx, if_true]
  have hread : readValue (2 * text.length + 2) text.toList = .ok (wordValue (Text.trim text.toList), []) := by
    obtain ⟨c, rest, heq, hc⟩ := hdenotes.head_of_point hpoint
    rw [heq] at hliteral ⊢
    exact readValue_word (2 * text.length + 1) hc hliteral
  rw [htrim, hword] at hread
  rw [value?, hread]

/-! ### Variables below the seeds -/

/-- No option lies on the way to what a variable below the seeds names. -/
private theorem not_prefix_below_seed {name key : String} (h : keys? name = some ["bridge", "seed", key]) {α : Type}
    (leaf : Leaf α) : ¬ leaf.path <+: ["bridge", "seed", key] := by
  intro hway
  cases leaf with
  | seed k =>
    have hkey : k.name = key := by simpa [Leaf.path] using hway
    exact absurd (by simp [hkey]) (name_not_mem_keys? h k)
  | _ => simp [Leaf.path] at hway

private theorem fits_below_seed {name text key : String} {v : Value} (h : keys? name = some ["bridge", "seed", key])
    (hv : value? text = some v) : Fits [(name, text)] where
  each name' text' path hmem hkeys := by
    cases List.mem_singleton.1 hmem
    obtain rfl : ["bridge", "seed", key] = path := Option.some.inj (h.symm.trans hkeys)
    have hshort : ∀ q ∈ sections, q.length ≤ 2 := by decide
    exact ⟨⟨v, hv⟩, fun q hq hway => absurd (hway.length_le.trans (hshort q hq)) (by simp)⟩
  last leaf path w hlatest := by
    have hnone : latest? [(name, text)] leaf.path = none := by
      simp [latest?, h, not_prefix_below_seed h leaf]
    cases hnone.symm.trans hlatest

private theorem set?_below_seed {name key : String} (h : keys? name = some ["bridge", "seed", key]) (text : String)
    {α : Type} (leaf : Leaf α) : leaf.set? [(name, text)] = none := by
  have hne : keys? name ≠ some leaf.path := by
    intro heq
    have hpath : leaf.path = ["bridge", "seed", key] := Option.some.inj (heq.symm.trans h)
    exact not_prefix_below_seed h leaf (hpath ▸ List.prefix_rfl)
  simp [Leaf.set?, given?, hne]

/-- The keys of a variable with the name of a seed, as it is or in capitals. -/
private theorem keys?_seed_name {name : String} (k : Field)
    (h : name ∈ ["CAMSYNC_BRIDGE__SEED__" ++ k.name, "CAMSYNC_BRIDGE__SEED__" ++ k.name.map Char.toUpper]) :
    ∃ key, keys? name = some ["bridge", "seed", key] := by
  rw [List.mem_cons, List.mem_singleton, String.map_eq_internal] at h
  rcases h with rfl | rfl
  · exact ⟨String.ofList (k.name.toList.map Char.toLower), by cases k <;> rfl⟩
  · exact ⟨String.ofList (k.name.toList.map Char.toLower), by cases k <;> rfl⟩

end Config.Environment

namespace Config

open Config.Environment in
/-- A variable with the name of a seed and a number in it is read, and all options are the same as without it.  So the
seed is what the files say of it, or its default. -/
theorem seed_variable_has_no_effect (directory : String) (disk : Disk) {defaults user : Value}
    (hdefaults : FileSays disk (filePath directory "default.toml") defaults)
    (huser : FileSays disk (filePath directory "user.toml") user) (hfits : defaults.Fits) (hfits' : user.Fits)
    (k : Field) {name text : String} {x : Double}
    (hname : name ∈ ["CAMSYNC_BRIDGE__SEED__" ++ k.name, "CAMSYNC_BRIDGE__SEED__" ++ k.name.map Char.toUpper])
    (hpoint : '.' ∈ text.toList) (hx : Format.double.ofLiteral? text.toList = some x) :
    value? text = some (.float x) ∧
      ∃ o, loadFrom directory disk [(name, text)] = .ok o ∧ loadFrom directory disk [] = .ok o ∧
        o.bridge.seed.get k = (((Leaf.seed k).in? user).or ((Leaf.seed k).in? defaults)).getD k.default := by
  have hvalue := value?_of_literal hpoint hx
  obtain ⟨key, hkeys⟩ := keys?_seed_name k hname
  obtain ⟨o, ho, hget⟩ := loadFrom_of_fits hdefaults huser hfits hfits' (fits_below_seed hkeys hvalue)
  obtain ⟨o', ho', hget'⟩ := loadFrom_of_fits hdefaults huser hfits hfits' (by decide : Fits [])
  obtain rfl : o = o' := by
    refine Options.ext_get fun leaf => ?_
    have hset : leaf.set? [] = none := rfl
    rw [hget, hget', set?_below_seed hkeys, hset]
  exact ⟨hvalue, o, ho, ho', (hget (.seed k)).trans (seed_from_files k _ user defaults)⟩

theorem seed_stays_as_in_file :
    '.' ∈ "1.5".toList ∧ Format.double.ofLiteral? "1.5".toList = some (Format.double.nearest (3 / 2)) ∧
      ∃ o, loadFrom directory (twoFiles directory (some "[bridge.seed]\ncamPosX = 2\n") none)
        [("CAMSYNC_BRIDGE__SEED__camPosX", "1.5")] = .ok o ∧ o.bridge.seed.posX = .ofInt 2 := by
  have hx : Format.double.ofLiteral? "1.5".toList = some (Format.double.nearest (3 / 2)) := by decide +kernel
  have hpoint : '.' ∈ "1.5".toList := by decide
  obtain ⟨-, o, ho, -, hseed⟩ := seed_variable_has_no_effect directory _
    (.of_plain (twoFiles_defaults directory (some "[bridge.seed]\ncamPosX = 2\n") none) (by decide +kernel)
      (by decide +kernel))
    (.absent (twoFiles_user _ _ _)) (by decide +kernel) (by decide) .posX (List.mem_cons.2 (Or.inl rfl)) hpoint hx
  exact ⟨hpoint, hx, o, ho, hseed.trans (by decide +kernel)⟩

/-- The environment does not come first for the seeds: without any files, a seed keeps its default. -/
theorem seed_is_not_overridden :
    ∃ o, Environment.value? "1.5" = some (.float (Format.double.nearest (3 / 2))) ∧
      loadFrom directory (twoFiles directory none none) [("CAMSYNC_BRIDGE__SEED__CAMPOSX", "1.5")] = .ok o ∧
      o.bridge.seed.posX = .ofInt 0 ∧ Format.double.nearest (3 / 2) ≠ .ofInt 0 := by
  have hkeys : Environment.keys? "CAMSYNC_BRIDGE__SEED__CAMPOSX" = some ["bridge", "seed", "camposx"] := rfl
  have hvalue : Environment.value? "1.5" = some (.float (Format.double.nearest (3 / 2))) :=
    Environment.value?_of_literal (by decide) (by decide +kernel)
  obtain ⟨o, ho, hget⟩ := loadFrom_of_fits (.absent (twoFiles_defaults directory none none))
    (.absent (twoFiles_user directory none none)) (by decide) (by decide)
    (Environment.fits_below_seed hkeys hvalue)
  have hseed := hget (.seed .posX)
  rw [Leaf.set?_seed, in?_nothing] at hseed
  exact ⟨o, hvalue, ho, hseed, by decide +kernel⟩

end Config

end CameraPanel
