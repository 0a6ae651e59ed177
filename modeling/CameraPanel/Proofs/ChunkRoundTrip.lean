import CameraPanel.Proofs.ChunkGrammar

/-!
# Writing a chunk and reading it

The writer escapes the name of a setting and the reader does not undo it, so a command comes back with the escaped name.
A quote in the name is still a quote when it is escaped: there the reader ends the name, and what follows can be no
argument because of the closing quote in it.  Nothing but a quote is escaped to a text with a quote
(`Text.quote_mem_escape_iff`), and an escaped text is never shorter, so it is the same only if no character is escaped
(`Text.escape_eq_self_iff`).
-/

namespace CameraPanel

/-! ### Escaped texts -/

namespace Text

private theorem quote_not_mem_hex (n : Nat) : '"' ∉ Nat.toDigits 16 n := by
  induction n using Nat.strongRecOn with
  | _ n ih =>
    rw [Nat.toDigits_eq_if (by decide)]
    split
    · simp
    · have hfront := ih (n / 16) (by omega)
      simp [hfront]

private theorem quote_mem_escapeChar_iff {c : Char} : '"' ∈ escapeChar c ↔ c = '"' := by
  unfold escapeChar
  by_cases hquote : c = '"'
  · simp [hquote]
  · have hcode : '"' ∉ codePoint c := by simp [codePoint, quote_not_mem_hex]
    simp only [hquote, if_false, iff_false]
    repeat' split
    · decide
    · decide
    · decide
    · decide
    · decide
    · exact hcode
    · simpa using Ne.symm hquote

private theorem quote_mem_escape_iff {cs : List Char} : '"' ∈ escape cs ↔ '"' ∈ cs := by
  simp [escape, quote_mem_escapeChar_iff]

/-- A character stands for itself, or its escape is longer. -/
private theorem escapeChar_eq_or (c : Char) : escapeChar c = [c] ∨ 1 < (escapeChar c).length := by
  unfold escapeChar
  repeat' split
  all_goals simp [codePoint]

private theorem length_le_length_escape (cs : List Char) : cs.length ≤ (escape cs).length := by
  induction cs with
  | nil => exact Nat.le_refl _
  | cons c cs ih =>
    have hc : 0 < (escapeChar c).length := by
      rcases escapeChar_eq_or c with h | h
      · simp [h]
      · omega
    simp only [escape, List.flatMap_cons, List.length_append, List.length_cons] at ih ⊢
    omega

private theorem escape_eq_self_iff {cs : List Char} : escape cs = cs ↔ ∀ c ∈ cs, escapeChar c = [c] := by
  induction cs with
  | nil => simp [escape]
  | cons c cs ih =>
    have hcons : escape (c :: cs) = escapeChar c ++ escape cs := List.flatMap_cons
    rw [hcons, List.forall_mem_cons, ← ih]
    rcases escapeChar_eq_or c with h | h
    · simp [h]
    · constructor
      · intro heq
        have hlen := congrArg List.length heq
        have hle := length_le_length_escape cs
        simp only [List.length_append, List.length_cons] at hlen
        omega
      · rintro ⟨hself, -⟩
        rw [hself] at h
        simp at h

end Text

namespace Command

/-- The same command for another name. -/
def withKey (key : String) : Command → Command
  | get _ => get key
  | set _ v => set key v

private theorem withKey_eq_self_iff {key : String} {c : Command} : c.withKey key = c ↔ key = c.key := by
  cases c <;> simp [withKey, Command.key]

/-! ### Names with a quote -/

private theorem getArguments?_of_quote {name rest : List Char} (hname : '"' ∉ name) (hrest : '"' ∈ rest) :
    getArguments? ('"' :: (name ++ '"' :: rest) ++ [')']) = none := by
  have htrim : Text.trim rest ≠ [] := fun h => absurd (Text.trim_eq_nil_iff.1 h '"' hrest) (by decide)
  rw [getArguments?, beforeParen?_concat, Option.bind_eq_bind, Option.bind_some, quotedName?_quoted hname]
  simp [htrim]

private theorem secondArgument?_of_quote {cs : List Char} (h : '"' ∈ cs) : secondArgument? cs = none := by
  cases hx : secondArgument? cs with
  | none => rfl
  | some x =>
    obtain ⟨w, v, n, v', hw, hv, hn, hv', rfl⟩ := secondArgument?_eq_some_iff.1 hx
    have hblank : ∀ {b : List Char}, Text.Blanks b → '"' ∉ b := fun hb hmem => absurd (hb '"' hmem) (by decide)
    have hnumber : '"' ∉ n := fun hmem => (hn.plain hmem).2 rfl
    simp [hblank hw, hblank hv, hblank hv', hnumber] at h

private theorem setArguments?_of_quote {name rest : List Char} (hname : '"' ∉ name) (hrest : '"' ∈ rest) :
    setArguments? ('"' :: (name ++ '"' :: rest) ++ [')']) = none := by
  rw [setArguments?, beforeParen?_concat, Option.bind_eq_bind, Option.bind_some, quotedName?_quoted hname]
  simp [secondArgument?_of_quote hrest]

private theorem parse_text_of_quote {c : Command} (h : '"' ∈ c.key.toList) :
    parse c.text = .error (.malformed c.text) := by
  obtain ⟨name, rest, hescape, hname⟩ := List.eq_append_cons_of_mem (Text.quote_mem_escape_iff.2 h)
  rw [parse, text, String.toList_ofList, trim_chars]
  -- The name ends at the first quote, and the closing quote is left in what follows.
  cases c with
  | get key =>
    have hescape' : Text.escape key.toList = name ++ '"' :: rest := hescape
    have hchars : (get key).chars = getCall ++ ('"' :: (name ++ '"' :: (rest ++ ['"'])) ++ [')']) := by
      simp [chars, Text.quoted, hescape']
    have hquote : '"' ∈ rest ++ ['"'] := by simp
    rw [hchars, parseChars]
    simp only [after?_append, getArguments?_of_quote hname hquote]
  | set key v =>
    have hescape' : Text.escape key.toList = name ++ '"' :: rest := hescape
    have hchars : (set key v).chars =
        setCall ++ ('"' :: (name ++ '"' :: (rest ++ '"' :: ',' :: numberChars v)) ++ [')']) := by
      simp [chars, Text.quoted, hescape']
    have hquote : '"' ∈ rest ++ '"' :: ',' :: numberChars v := by simp
    rw [hchars, parseChars]
    simp only [after?_append, after?_getCall_setCall, setArguments?_of_quote hname hquote]

private theorem parse_text_of_no_quote {c : Command} (h : '"' ∉ c.key.toList) :
    parse c.text = .ok (c.withKey (String.ofList (Text.escape c.key.toList))) := by
  have hescape := Text.quote_mem_escape_iff.not.2 h
  cases c with
  | get key => exact parse_text_get hescape
  | set key v => exact parse_text_set hescape v

/-- The name of a call has no quote in it. -/
private theorem Call.quote_not_mem {cs : List Char} {c : Command} (h : Call cs c) : '"' ∉ c.key.toList := by
  cases h with
  | get hw hw' hkey => exact hkey
  | set hw hw' hkey hv hn hv' => exact hkey

/-! ### Round trips -/

private theorem parse_text_eq_ok_iff {c : Command} :
    parse c.text = .ok c ↔ ∀ ch ∈ c.key.toList, Text.escapeChar ch = [ch] := by
  rw [← Text.escape_eq_self_iff]
  by_cases h : '"' ∈ c.key.toList
  · rw [parse_text_of_quote h]
    simp only [reduceCtorEq, false_iff]
    intro hself
    have hquote := Text.escape_eq_self_iff.1 hself '"' h
    simp [Text.escapeChar] at hquote
  · rw [parse_text_of_no_quote h, Except.ok.injEq, withKey_eq_self_iff, ← String.toList_inj, String.toList_ofList]

/-- The chunk of a command is malformed if the name has a quote in it, and else it is read as the command with the
escaped name and the same number.  So a command comes back as it was exactly if no character of its name is escaped,
which is so for the names of the fields; and what was read from a chunk can be written and read again. -/
theorem text_comes_back_escaped (c : Command) :
    (parse c.text = if '"' ∈ c.key.toList then .error (.malformed c.text)
      else .ok (c.withKey (String.ofList (Text.escape c.key.toList)))) ∧
    (parse c.text = .ok c ↔ ∀ ch ∈ c.key.toList, Text.escapeChar ch = [ch]) ∧
    (∀ k : Field, c.key = k.name → parse c.text = .ok c) ∧
    (∀ chunk, parse chunk = .ok c → ∃ c', parse c.text = .ok c') := by
  refine ⟨?_, parse_text_eq_ok_iff, ?_, ?_⟩
  · split
    · rename_i h
      exact parse_text_of_quote h
    · rename_i h
      exact parse_text_of_no_quote h
  · intro k hk
    rw [parse_text_eq_ok_iff, ← Text.escape_eq_self_iff, hk]
    exact escape_name k
  · intro chunk hchunk
    have hcall : Call (Text.trim chunk.toList) c := parseChars_eq_ok_iff.1 hchunk
    exact ⟨_, parse_text_of_no_quote hcall.quote_not_mem⟩

end Command

end CameraPanel
