import CameraPanel.Proofs.PlainText
import CameraPanel.Remote.Command

/-!
# Chunks that read back

The chunk of a command is read as the command whose name is the escaped name, as long as no quote is in it
(`parse_text_get`, `parse_text_set`): the reader takes the name as it stands.  The number comes back as it was, since
its text does.  The names of the fields need no escape, so that the chunks about fields read back as they were written.
-/

namespace CameraPanel

/-! ### Blanks -/

namespace Text

theorem trimStart_cons {c : Char} (h : isBlank c = false) (cs : List Char) : trimStart (c :: cs) = c :: cs := by
  simp [trimStart, h]

theorem trim_eq_self {cs : List Char} (hhead : ∀ c ∈ cs.head?, isBlank c = false)
    (hlast : ∀ c ∈ cs.getLast?, isBlank c = false) : trim cs = cs := by
  have hstart : trimStart cs = cs := by
    cases cs with
    | nil => rfl
    | cons c cs => exact trimStart_cons (hhead c rfl) cs
  rw [trim, hstart, trimEnd]
  rw [← List.head?_reverse] at hlast
  cases hrev : cs.reverse with
  | nil => rw [List.reverse_eq_nil_iff.1 hrev]; rfl
  | cons c rest =>
    rw [hrev] at hlast
    rw [List.dropWhile_cons_of_neg (by simp [hlast c rfl]), ← hrev, List.reverse_reverse]

private theorem isBlank_of_isDigit {c : Char} (h : c.isDigit = true) : isBlank c = false := by
  obtain ⟨h48, h57⟩ := Char.isDigit_iff_toNat.1 h
  have h48' : 48 ≤ c.toNat := h48
  have h57' : c.toNat ≤ 57 := h57
  simp [isBlank]
  omega

end Text

namespace Command

/-! ### Parts of a chunk -/

theorem after?_append (start cs : List Char) : after? start (start ++ cs) = some cs := by
  induction start with
  | nil => rfl
  | cons a start ih => simp [after?, ih]

theorem after?_getCall_setCall (cs : List Char) : after? getCall (setCall ++ cs) = none := rfl

theorem beforeParen?_concat (cs : List Char) : beforeParen? (cs ++ [')']) = some cs := by
  simp [beforeParen?]

theorem quotedName?_quoted {key : List Char} (h : '"' ∉ key) (rest : List Char) :
    quotedName? ('"' :: (key ++ '"' :: rest)) = some (key, rest) := by
  have hkey : ∀ c ∈ key, (c != '"') = true := fun c hc => bne_iff_ne.2 fun heq => h (heq ▸ hc)
  have hspan : (key ++ '"' :: rest).span (· != '"') = (key, '"' :: rest) := by
    rw [List.span_eq_takeWhile_dropWhile, List.takeWhile_append_of_pos hkey, List.dropWhile_append_of_pos hkey]
    simp
  rw [quotedName?, Text.trimStart_cons (by decide)]
  simp only [hspan]

/-! ### Numbers -/

private theorem numberChars_of_isFinite {v : Double} (h : v.isFinite = true) :
    numberChars v = Layout.plain.chars v := by
  cases v with
  | nan => cases h
  | infinity => cases h
  | finite => rfl

/-- None of the three quotients is a literal, so a literal is read as one. -/
theorem number?_of_literal {cs : List Char} {v : Double} (h : Format.double.ofLiteral? cs = some v) :
    number? cs = some v := by
  have hquotient : ∀ q, Format.double.ofLiteral? q = none → cs ≠ q := by
    rintro q hq rfl
    rw [hq] at h
    cases h
  rw [number?, if_neg (hquotient _ (by decide)), if_neg (hquotient _ (by decide)), if_neg (hquotient _ (by decide)), h]

private theorem number?_numberChars (v : Double) : number? (numberChars v) = some v := by
  match v with
  | .nan => rfl
  | .infinity false => rfl
  | .infinity true => rfl
  | .finite negative rank hlt =>
    have hfinite : (Binary.finite negative rank hlt : Double).isFinite = true := rfl
    rw [numberChars_of_isFinite hfinite]
    exact number?_of_literal (Format.ofLiteral?_plain hfinite)

private theorem not_blank_of_mem_numberChars {v : Double} {c : Char} (h : c ∈ numberChars v) :
    Text.isBlank c = false := by
  have hquotient : ∀ {cs : List Char}, cs.all (fun c => !Text.isBlank c) = true → c ∈ cs → Text.isBlank c = false :=
    fun hall hc => by simpa using List.all_eq_true.1 hall c hc
  match v with
  | .nan => exact hquotient (by decide : nanQuotient.all _ = true) h
  | .infinity false => exact hquotient (by decide : (infinityQuotient false).all _ = true) h
  | .infinity true => exact hquotient (by decide : (infinityQuotient true).all _ = true) h
  | .finite negative rank hlt =>
    have hfinite : (Binary.finite negative rank hlt : Double).isFinite = true := rfl
    rw [numberChars_of_isFinite hfinite] at h
    rcases Layout.mem_chars_plain hfinite h with hc | rfl | rfl
    · exact Text.isBlank_of_isDigit hc
    · decide
    · decide

private theorem secondArgument?_numberChars (v : Double) : secondArgument? (',' :: numberChars v) = some v := by
  have htrim : Text.trim (numberChars v) = numberChars v :=
    Text.trim_eq_self (fun _ hc => not_blank_of_mem_numberChars (List.mem_of_mem_head? hc))
      fun _ hc => not_blank_of_mem_numberChars (List.mem_of_mem_getLast? hc)
  rw [secondArgument?, Text.trimStart_cons (by decide)]
  simp only [htrim, number?_numberChars]

/-! ### Whole chunks -/

private theorem getArguments?_chars {key : List Char} (h : '"' ∉ Text.escape key) :
    getArguments? (Text.quoted key ++ [')']) = some (get (String.ofList (Text.escape key))) := by
  have hname : quotedName? (Text.quoted key) = some (Text.escape key, []) := quotedName?_quoted h []
  rw [getArguments?, beforeParen?_concat]
  simp only [Option.bind_eq_bind, Option.bind_some, hname]
  rfl

private theorem setArguments?_chars {key : List Char} (h : '"' ∉ Text.escape key) (v : Double) :
    setArguments? (Text.quoted key ++ ',' :: (numberChars v ++ [')'])) =
      some (set (String.ofList (Text.escape key)) v) := by
  have hname : quotedName? (Text.quoted key ++ ',' :: numberChars v) = some (Text.escape key, ',' :: numberChars v) := by
    rw [Text.quoted, List.cons_append, List.append_assoc]
    exact quotedName?_quoted h (',' :: numberChars v)
  rw [setArguments?, ← List.cons_append, ← List.append_assoc, beforeParen?_concat]
  simp only [Option.bind_eq_bind, Option.bind_some, hname, secondArgument?_numberChars]
  rfl

theorem trim_chars (c : Command) : Text.trim c.chars = c.chars := by
  have hget : getCall.head? = some 's' := by decide
  have hset : setCall.head? = some 's' := by decide
  apply Text.trim_eq_self
  · cases c <;> simp [chars, List.head?_append, hget, hset, Text.isBlank]
  · cases c with
    | get key => simp [chars, Text.isBlank]
    | set key v => simp [chars, List.getLast?_append, List.getLast?_cons, Text.isBlank]

/-- The chunk of a read is read with the name as it was written. -/
theorem parse_text_get {key : String} (h : '"' ∉ Text.escape key.toList) :
    parse (get key).text = .ok (get (String.ofList (Text.escape key.toList))) := by
  rw [parse, text, String.toList_ofList, trim_chars, chars, List.append_assoc, parseChars]
  simp only [after?_append, getArguments?_chars h]

/-- The chunk of a write is read with the name as it was written, and with the same number. -/
theorem parse_text_set {key : String} (h : '"' ∉ Text.escape key.toList) (v : Double) :
    parse (set key v).text = .ok (set (String.ofList (Text.escape key.toList)) v) := by
  rw [parse, text, String.toList_ofList, trim_chars, chars, List.append_assoc, parseChars]
  simp only [after?_append, after?_getCall_setCall, setArguments?_chars h]

/-! ### Chunks about fields -/

theorem escape_name (k : Field) : Text.escape k.name.toList = k.name.toList := by
  cases k <;> decide

private theorem quote_not_mem_escape_name (k : Field) : '"' ∉ Text.escape k.name.toList := by
  rw [escape_name]
  cases k <;> decide

theorem parse_get_field (k : Field) : parse (get k.name).text = .ok (get k.name) := by
  rw [parse_text_get (quote_not_mem_escape_name k), escape_name, String.ofList_toList]

theorem parse_set_field (k : Field) (v : Double) : parse (set k.name v).text = .ok (set k.name v) := by
  rw [parse_text_set (quote_not_mem_escape_name k), escape_name, String.ofList_toList]

end Command

end CameraPanel
