import CameraPanel.Proofs.Chunks
import CameraPanel.Proofs.LiteralGrammar

/-!
# The grammar of chunks

`Command.Call` says how the call of a command is written: the start of the call, the name between quotes, for a write a
comma and a number, and the closing parenthesis, with blanks between them.  Each step of the reader takes off one of
these parts, and what it gives is said in one lemma for each step; together they say that the reader takes exactly the
calls of the grammar, and which of the two errors it gives for every other chunk (`parse_follows_grammar`).
-/

namespace CameraPanel

/-! ### Blanks -/

namespace Text

/-- Nothing but blanks. -/
def Blanks (cs : List Char) : Prop := ∀ c ∈ cs, isBlank c = true

private theorem exists_trimStart (cs : List Char) : ∃ w, Blanks w ∧ cs = w ++ trimStart cs := by
  refine ⟨cs.takeWhile isBlank, fun c hc => List.all_eq_true.1 List.all_takeWhile c hc, ?_⟩
  exact List.takeWhile_append_dropWhile.symm

private theorem exists_trimEnd (cs : List Char) : ∃ w, Blanks w ∧ cs = trimEnd cs ++ w := by
  obtain ⟨w, hw, hcs⟩ := exists_trimStart cs.reverse
  refine ⟨w.reverse, fun c hc => hw c (List.mem_reverse.1 hc), ?_⟩
  have hrev := congrArg List.reverse hcs
  rwa [List.reverse_reverse, List.reverse_append] at hrev

theorem exists_trim (cs : List Char) : ∃ w w', Blanks w ∧ Blanks w' ∧ cs = w ++ (trim cs ++ w') := by
  obtain ⟨w, hw, hstart⟩ := exists_trimStart cs
  obtain ⟨w', hw', hend⟩ := exists_trimEnd (trimStart cs)
  refine ⟨w, w', hw, hw', ?_⟩
  rw [trim, ← hend, ← hstart]

private theorem trimStart_append_cons {w : List Char} (hw : Blanks w) {c : Char} (hc : isBlank c = false)
    (cs : List Char) :
    trimStart (w ++ c :: cs) = c :: cs := by
  rw [trimStart, List.dropWhile_append_of_pos hw]
  exact trimStart_cons hc cs

theorem trim_append {w cs w' : List Char} (hw : Blanks w) (hw' : Blanks w') (hne : cs ≠ [])
    (h : ∀ c ∈ cs, isBlank c = false) : trim (w ++ (cs ++ w')) = cs := by
  obtain ⟨c, rest, rfl⟩ := List.exists_cons_of_ne_nil hne
  have hc : isBlank c = false := h c (by simp)
  have hend : trimEnd (c :: rest ++ w') = trimEnd (c :: rest) := by
    rw [trimEnd, List.reverse_append, List.dropWhile_append_of_pos fun c hc => hw' c (List.mem_reverse.1 hc)]
    rfl
  have hself : trim (c :: rest) = c :: rest :=
    trim_eq_self (fun c hc => h c (List.mem_of_mem_head? hc)) fun c hc => h c (List.mem_of_mem_getLast? hc)
  rw [trim, trimStart_cons hc] at hself
  rw [trim, List.cons_append, trimStart_append_cons hw hc, ← List.cons_append, hend, hself]

theorem trim_eq_nil_iff {cs : List Char} : trim cs = [] ↔ Blanks cs := by
  constructor
  · intro h
    obtain ⟨w, w', hw, hw', hcs⟩ := exists_trim cs
    rw [h] at hcs
    rw [hcs]
    exact fun c hc => (List.mem_append.1 hc).elim (hw c) (hw' c)
  · intro h
    have hstart : (cs ++ []).dropWhile isBlank = [] := List.dropWhile_append_of_pos h
    rw [List.append_nil] at hstart
    rw [trim, trimStart, hstart]
    rfl

end Text

/-- Blanks and quotes stand in no literal. -/
theorem Literal.IsLiteralChar.plain {c : Char} (h : IsLiteralChar c) : Text.isBlank c = false ∧ c ≠ '"' := by
  have hbounds := h.toNat_bounds
  constructor
  · simp [Text.isBlank]
    omega
  · rintro rfl
    simp at hbounds

namespace Command

/-! ### Calls -/

/-- A number as an argument, and its value. -/
inductive IsNumber : List Char → Double → Prop
  | nan : IsNumber "0/0".toList .nan
  | infinity : IsNumber "1/0".toList (.infinity false)
  | negInfinity : IsNumber "-1/0".toList (.infinity true)
  | literal {cs : List Char} {x : Double} (h : Literal.Denotes .double cs x) : IsNumber cs x

/-- The call of a command. -/
inductive Call : List Char → Command → Prop
  | get {w w' : List Char} {key : String} (hw : Text.Blanks w) (hw' : Text.Blanks w') (hkey : '"' ∉ key.toList) :
      Call (getCall ++ (w ++ '"' :: (key.toList ++ '"' :: (w' ++ [')'])))) (get key)
  | set {w w' v v' n : List Char} {key : String} {x : Double} (hw : Text.Blanks w) (hw' : Text.Blanks w')
      (hkey : '"' ∉ key.toList) (hv : Text.Blanks v) (hn : IsNumber n x) (hv' : Text.Blanks v') :
      Call (setCall ++
        (w ++ '"' :: (key.toList ++ '"' :: (w' ++ ',' :: (v ++ (n ++ (v' ++ [')']))))))) (set key x)

/-! ### The parts of a call -/

private theorem after?_eq_some_iff {start cs rest : List Char} : after? start cs = some rest ↔ cs = start ++ rest := by
  constructor
  · intro h
    induction start generalizing cs with
    | nil => exact Option.some.inj h
    | cons a start ih =>
      cases cs with
      | nil => cases h
      | cons c cs =>
        unfold after? at h
        split at h
        · rename_i hac
          rw [hac, ih h, List.cons_append]
        · cases h
  · rintro rfl
    exact after?_append start rest

private theorem after?_eq_none_iff {start cs : List Char} : after? start cs = none ↔ ¬ start <+: cs := by
  constructor
  · rintro h ⟨rest, rfl⟩
    rw [after?_append] at h
    cases h
  · intro h
    cases hafter : after? start cs with
    | none => rfl
    | some rest => exact absurd ⟨rest, (after?_eq_some_iff.1 hafter).symm⟩ h

private theorem beforeParen?_eq_some_iff {cs rest : List Char} : beforeParen? cs = some rest ↔ cs = rest ++ [')'] := by
  constructor
  · intro h
    unfold beforeParen? at h
    split at h
    · rename_i hlast
      cases h
      exact (List.dropLast_append_getLast? ')' hlast).symm
    · cases h
  · rintro rfl
    exact beforeParen?_concat rest

private theorem quotedName?_eq_some_iff {cs key rest : List Char} :
    quotedName? cs = some (key, rest) ↔ '"' ∉ key ∧ ∃ w, Text.Blanks w ∧ cs = w ++ '"' :: (key ++ '"' :: rest) := by
  constructor
  · intro h
    obtain ⟨w, hw, hcs⟩ := Text.exists_trimStart cs
    unfold quotedName? at h
    split at h
    · rename_i inner hquote
      rw [List.span_eq_takeWhile_dropWhile] at h
      have hsplit := List.takeWhile_append_dropWhile (p := (· != '"')) (l := inner)
      split at h
      · rename_i key' rest' hspan
        cases h
        obtain ⟨hkey, hrest⟩ := Prod.mk.inj hspan
        rw [hkey, hrest] at hsplit
        refine ⟨fun hmem => ?_, w, hw, by rw [hsplit, ← hquote, ← hcs]⟩
        have hpos := List.all_eq_true.1 (List.all_takeWhile (p := (· != '"')) (l := inner)) '"' (hkey ▸ hmem)
        simp at hpos
      · cases h
    · cases h
  · rintro ⟨hkey, w, hw, rfl⟩
    have hname := quotedName?_quoted hkey rest
    rw [quotedName?, Text.trimStart_cons (by decide)] at hname
    rw [quotedName?, Text.trimStart_append_cons hw (by decide)]
    exact hname

/-! ### Arguments -/

theorem IsNumber.ne_nil {cs : List Char} {x : Double} (h : IsNumber cs x) : cs ≠ [] := by
  rintro rfl
  generalize hcs : ([] : List Char) = cs at h
  cases h with
  | nan => simp at hcs
  | infinity => simp at hcs
  | negInfinity => simp at hcs
  | literal h =>
    have hread := Format.ofLiteral?_eq_some_iff.2 h
    rw [← hcs] at hread
    cases hread

theorem IsNumber.plain {cs : List Char} {x : Double} (h : IsNumber cs x) {c : Char} (hc : c ∈ cs) :
    Text.isBlank c = false ∧ c ≠ '"' := by
  cases h with
  | literal h => exact (h.isLiteralChar hc).plain
  | _ =>
    simp at hc
    rcases hc with rfl | rfl | rfl | rfl <;> decide

private theorem number?_eq_some_iff {cs : List Char} {x : Double} : number? cs = some x ↔ IsNumber cs x := by
  constructor
  · intro h
    unfold number? at h
    split at h
    · rename_i hcs
      cases h
      exact hcs ▸ .nan
    · split at h
      · rename_i hcs
        cases h
        exact hcs ▸ .infinity
      · split at h
        · rename_i hcs
          cases h
          exact hcs ▸ .negInfinity
        · exact .literal (Format.ofLiteral?_eq_some_iff.1 h)
  · intro h
    cases h with
    | nan => decide
    | infinity => decide
    | negInfinity => decide
    | literal h => exact number?_of_literal (Format.ofLiteral?_eq_some_iff.2 h)

theorem secondArgument?_eq_some_iff {cs : List Char} {x : Double} :
    secondArgument? cs = some x ↔
      ∃ w v n v', Text.Blanks w ∧ Text.Blanks v ∧ IsNumber n x ∧ Text.Blanks v' ∧
        cs = w ++ ',' :: (v ++ (n ++ v')) := by
  constructor
  · intro h
    obtain ⟨w, hw, hcs⟩ := Text.exists_trimStart cs
    unfold secondArgument? at h
    split at h
    · rename_i rest hcomma
      obtain ⟨v, v', hv, hv', hrest⟩ := Text.exists_trim rest
      exact ⟨w, v, _, v', hw, hv, number?_eq_some_iff.1 h, hv', by rw [← hrest, ← hcomma, ← hcs]⟩
    · cases h
  · rintro ⟨w, v, n, v', hw, hv, hn, hv', rfl⟩
    rw [secondArgument?, Text.trimStart_append_cons hw (by decide)]
    simp only [Text.trim_append hv hv' hn.ne_nil fun c hc => (hn.plain hc).1]
    exact number?_eq_some_iff.2 hn

private theorem getArguments?_eq_some_iff {cs : List Char} {c : Command} :
    getArguments? cs = some c ↔ Call (getCall ++ cs) c := by
  constructor
  · intro h
    obtain ⟨args, hargs, h₁⟩ := Option.bind_eq_some_iff.1 h
    obtain ⟨⟨key, rest⟩, hname, hread⟩ := Option.bind_eq_some_iff.1 h₁
    clear h h₁
    obtain ⟨hkey, w, hw, rfl⟩ := quotedName?_eq_some_iff.1 hname
    obtain rfl := beforeParen?_eq_some_iff.1 hargs
    dsimp only at hread
    split at hread
    · rename_i hrest
      cases hread
      have hblank := Text.trim_eq_nil_iff.1 (List.isEmpty_iff.1 hrest)
      have hcall : Call _ (get (String.ofList key)) := .get hw hblank (by simpa using hkey)
      simpa using hcall
    · cases hread
  · intro h
    generalize htext : getCall ++ cs = text at h
    cases h with
    | @get w w' key hw hw' hkey =>
      obtain rfl := List.append_cancel_left htext
      have hparen : w ++ '"' :: (key.toList ++ '"' :: (w' ++ [')'])) =
          w ++ '"' :: (key.toList ++ '"' :: w') ++ [')'] := by simp
      have hname : quotedName? (w ++ '"' :: (key.toList ++ '"' :: w')) = some (key.toList, w') :=
        quotedName?_eq_some_iff.2 ⟨hkey, w, hw, rfl⟩
      rw [getArguments?, hparen, beforeParen?_concat, Option.bind_eq_bind, Option.bind_some, hname,
        Option.bind_eq_bind, Option.bind_some]
      simp [Text.trim_eq_nil_iff.2 hw']
    | set hw hw' hkey hv hn hv' =>
      have hafter := congrArg (after? getCall) htext
      rw [after?_append] at hafter
      cases hafter

private theorem setArguments?_eq_some_iff {cs : List Char} {c : Command} :
    setArguments? cs = some c ↔ Call (setCall ++ cs) c := by
  constructor
  · intro h
    obtain ⟨args, hargs, h₁⟩ := Option.bind_eq_some_iff.1 h
    obtain ⟨⟨key, rest⟩, hname, h₂⟩ := Option.bind_eq_some_iff.1 h₁
    obtain ⟨x, hx, hread⟩ := Option.bind_eq_some_iff.1 h₂
    obtain ⟨hkey, w, hw, rfl⟩ := quotedName?_eq_some_iff.1 hname
    obtain ⟨w', v, n, v', hw', hv, hn, hv', rfl⟩ := secondArgument?_eq_some_iff.1 hx
    obtain rfl := beforeParen?_eq_some_iff.1 hargs
    cases hread
    have hcall : Call _ (set (String.ofList key) x) := .set hw hw' (by simpa using hkey) hv hn hv'
    simpa using hcall
  · intro h
    generalize htext : setCall ++ cs = text at h
    cases h with
    | get hw hw' hkey =>
      have hafter := congrArg (after? setCall) htext
      rw [after?_append] at hafter
      cases hafter
    | @set w w' v v' n key x hw hw' hkey hv hn hv' =>
      obtain rfl := List.append_cancel_left htext
      have hparen : w ++ '"' :: (key.toList ++ '"' :: (w' ++ ',' :: (v ++ (n ++ (v' ++ [')']))))) =
          w ++ '"' :: (key.toList ++ '"' :: (w' ++ ',' :: (v ++ (n ++ v')))) ++ [')'] := by simp
      have hname : quotedName? (w ++ '"' :: (key.toList ++ '"' :: (w' ++ ',' :: (v ++ (n ++ v'))))) =
          some (key.toList, w' ++ ',' :: (v ++ (n ++ v'))) := quotedName?_eq_some_iff.2 ⟨hkey, w, hw, rfl⟩
      have hsecond := secondArgument?_eq_some_iff.2 ⟨w', v, n, v', hw', hv, hn, hv', rfl⟩
      rw [setArguments?, hparen, beforeParen?_concat, Option.bind_eq_bind, Option.bind_some, hname,
        Option.bind_eq_bind, Option.bind_some]
      simp [hsecond]

/-! ### Chunks -/

/-- The start of a chunk decides which arguments are read. -/
theorem parseChars_eq_ok_iff {cs : List Char} {c : Command} : parseChars cs = .ok c ↔ Call cs c := by
  unfold parseChars
  cases hget : after? getCall cs with
  | some rest =>
    obtain rfl := after?_eq_some_iff.1 hget
    rw [← getArguments?_eq_some_iff]
    cases hargs : getArguments? rest <;> simp [hargs]
  | none =>
    cases hset : after? setCall cs with
    | some rest =>
      obtain rfl := after?_eq_some_iff.1 hset
      rw [← setArguments?_eq_some_iff]
      cases hargs : setArguments? rest <;> simp [hargs]
    | none =>
      refine ⟨fun h => ?_, fun h => ?_⟩
      · cases h
      · cases h with
        | get hw hw' hkey => cases hget
        | set hw hw' hkey hv hn hv' => cases hset

private theorem parseChars_eq_error {cs : List Char} {e : CommandError} (h : parseChars cs = .error e) :
    (e = .unknownCall (String.ofList cs) ∧ ¬ getCall <+: cs ∧ ¬ setCall <+: cs) ∨
      (e = .malformed (String.ofList cs) ∧ (getCall <+: cs ∨ setCall <+: cs)) := by
  unfold parseChars at h
  cases hget : after? getCall cs with
  | some rest =>
    simp only [hget] at h
    refine Or.inr ⟨?_, Or.inl ⟨rest, (after?_eq_some_iff.1 hget).symm⟩⟩
    split at h
    · cases h
    · exact (Except.error.inj h).symm
  | none =>
    cases hset : after? setCall cs with
    | some rest =>
      simp only [hget, hset] at h
      refine Or.inr ⟨?_, Or.inr ⟨rest, (after?_eq_some_iff.1 hset).symm⟩⟩
      split at h
      · cases h
      · exact (Except.error.inj h).symm
    | none =>
      simp only [hget, hset] at h
      exact Or.inl ⟨(Except.error.inj h).symm, after?_eq_none_iff.1 hget, after?_eq_none_iff.1 hset⟩

private theorem Call.start {cs : List Char} {c : Command} (h : Call cs c) : getCall <+: cs ∨ setCall <+: cs := by
  cases h with
  | get hw hw' hkey => exact Or.inl (List.prefix_append _ _)
  | set hw hw' hkey hv hn hv' => exact Or.inr (List.prefix_append _ _)

/-- A chunk is read as a command if and only if, without the blanks around it, it is a call of the command.  A chunk
that starts like neither call is an unknown one, and all others are malformed; both errors tell the chunk without the
blanks around it. -/
theorem parse_follows_grammar (chunk : String) :
    (∀ c, parse chunk = .ok c ↔ Call (Text.trim chunk.toList) c) ∧
    (parse chunk = .error (.unknownCall (String.ofList (Text.trim chunk.toList))) ↔
      ¬ getCall <+: Text.trim chunk.toList ∧ ¬ setCall <+: Text.trim chunk.toList) ∧
    (parse chunk = .error (.malformed (String.ofList (Text.trim chunk.toList))) ↔
      (getCall <+: Text.trim chunk.toList ∨ setCall <+: Text.trim chunk.toList) ∧
        ¬ ∃ c, Call (Text.trim chunk.toList) c) := by
  unfold parse
  generalize Text.trim chunk.toList = t
  refine ⟨fun c => parseChars_eq_ok_iff, ?_⟩
  cases hparse : parseChars t with
  | ok c =>
    have hcall := parseChars_eq_ok_iff.1 hparse
    have hstart := hcall.start
    simp only [reduceCtorEq, false_iff]
    exact ⟨fun h => hstart.elim h.1 h.2, fun h => h.2 ⟨c, hcall⟩⟩
  | error e =>
    have hcall : ¬ ∃ c, Call t c := by
      rintro ⟨c, hcall⟩
      rw [parseChars_eq_ok_iff.2 hcall] at hparse
      cases hparse
    rcases parseChars_eq_error hparse with ⟨rfl, hget, hset⟩ | ⟨rfl, hstart⟩
    · simp [hget, hset]
    · simp only [Except.error.injEq, reduceCtorEq, false_iff, not_and_or, not_not, true_iff]
      exact ⟨hstart, hstart, hcall⟩

end Command

end CameraPanel
