import CameraPanel.Host.Line
import CameraPanel.Proofs.PlainText
import CameraPanel.Proofs.Rounding
import Mathlib.Data.Rat.Floor

/-!
# Reading the line of the panel

The line of the panel can be read back.  No field has two spaces in its text, and none ends in a space, so that the gaps
between the fields are the only places where the line divides (`segments_intercalate`).  In its segment a field shows
whether it is selected and what stands for its value: dashes, or a text that is never the dashes.  The text of a finite
number is a decimal with two places that is nearest to the number, so at most half a hundredth away from it.
-/

namespace CameraPanel

/-! ### Fixed places -/

private theorem abs_sub_roundDiv_le_half (n : Nat) {d : Nat} (hd : 0 < d) : |(n / d : ℚ) - roundDiv n d| ≤ 1 / 2 := by
  have hnonneg : (0 : ℚ) ≤ n / d := by positivity
  have hround : 0 ≤ round (n / d : ℚ) := by
    rw [round_eq]
    exact Int.floor_nonneg.2 (by linarith)
  have hcast : ((round (n / d : ℚ)).toNat : ℚ) = round (n / d : ℚ) := by
    exact_mod_cast Int.toNat_of_nonneg hround
  calc |(n / d : ℚ) - roundDiv n d| ≤ |(n / d : ℚ) - (round (n / d : ℚ)).toNat| := abs_sub_roundDiv_le n hd _
    _ = |(n / d : ℚ) - round (n / d : ℚ)| := by rw [hcast]
    _ ≤ 1 / 2 := abs_sub_round _

/-- A number with fixed places is written as digits, a point, and as many digits as there are places. -/
private theorem fixedPlaces_eq (places : Nat) (x : ℚ) :
    ∃ whole frac : List Char, fixedPlaces places x = whole ++ '.' :: frac ∧ whole ≠ [] ∧ frac.length = places ∧
      (∀ c ∈ whole ++ frac, c.isDigit = true) ∧
      digitsValue (whole ++ frac) = roundDiv (x.num.natAbs * 10 ^ places) x.den := by
  let n := roundDiv (x.num.natAbs * 10 ^ places) x.den
  let padded := List.replicate (places + 1 - (decimalDigits n).length) '0' ++ decimalDigits n
  have hlength : places + 1 ≤ padded.length := by
    simp only [padded, List.length_append, List.length_replicate]
    omega
  have hpadded : padded.take (padded.length - places) ++ padded.drop (padded.length - places) = padded :=
    List.take_append_drop _ _
  refine ⟨padded.take (padded.length - places), padded.drop (padded.length - places), rfl, ?_, ?_, ?_, ?_⟩
  · apply List.ne_nil_of_length_pos
    rw [List.length_take]
    omega
  · rw [List.length_drop]
    omega
  · rw [hpadded]
    intro c hc
    rcases List.mem_append.1 hc with hc | hc
    · rw [List.eq_of_mem_replicate hc]
      rfl
    · exact Nat.isDigit_of_mem_toDigits (by decide) (by decide) hc
  · rw [hpadded, digitsValue_zeros_append, digitsValue_decimalDigits]

namespace Line

/-! ### Decimals with two places -/

/-- The text of a decimal with two places, and its exact value. -/
inductive IsHundredths : List Char → ℚ → Prop
  | mk (negative : Bool) {whole : List Char} {a b : Char} (hne : whole ≠ [])
      (hdigits : ∀ c ∈ whole ++ [a, b], c.isDigit = true) :
      IsHundredths (signed negative (whole ++ ['.', a, b]))
        (if negative then -(digitsValue (whole ++ [a, b]) / 100) else digitsValue (whole ++ [a, b]) / 100)

/-- The number that a text of digits with a point and a sign denotes. -/
def number? (text : List Char) : Option ℚ :=
  (Literal.decimal? (Literal.sign text).2).map fun d => if (Literal.sign text).1 then -d.toRat else d.toRat

private theorem IsHundredths.number?_eq {text : List Char} {q : ℚ} (h : IsHundredths text q) :
    number? text = some q := by
  obtain ⟨negative, hne, hdigits⟩ := h
  rename_i whole a b
  obtain ⟨c, rest, rfl⟩ := List.exists_cons_of_ne_nil hne
  have hdecimal : Literal.decimal? (c :: rest ++ ['.', a, b]) = some ⟨digitsValue (c :: rest ++ [a, b]), -2⟩ :=
    Literal.decimal?_point hne (fun d hd => hdigits d (List.mem_append_left _ hd))
      fun d hd => hdigits d (List.mem_append_right _ hd)
  rw [number?, List.cons_append, Literal.sign_signed negative (hdigits c (by simp))]
  rw [List.cons_append] at hdecimal
  simp only [hdecimal, Option.map_some, Decimal.toRat_eq, Option.some.injEq]
  norm_num [div_eq_mul_inv]

private theorem isHundredths_fixed {v : Double} (h : v.isFinite = true) :
    ∃ q, IsHundredths (v.fixed 2) q ∧ |q - v.toRat| ≤ 1 / 200 := by
  obtain _ | _ | ⟨negative, rank, hlt⟩ := v
  · cases h
  · cases h
  · let x := Format.double.magnitude rank
    obtain ⟨whole, frac, htext, hne, hlength, hdigits, hvalue⟩ := fixedPlaces_eq 2 x
    obtain ⟨a, b, rfl⟩ := List.length_eq_two.1 hlength
    have hx : (x.num.natAbs : ℚ) / x.den = x := Format.natAbs_num_div_den (Format.double.magnitude_nonneg rank)
    have hhalf : |x * 100 - digitsValue (whole ++ [a, b])| ≤ 1 / 2 := by
      have hround := abs_sub_roundDiv_le_half (x.num.natAbs * 10 ^ 2) x.den_pos
      rw [← hvalue, Nat.cast_mul, mul_div_right_comm, hx] at hround
      exact_mod_cast hround
    have herror : |(digitsValue (whole ++ [a, b]) / 100 : ℚ) - x| ≤ 1 / 200 := by
      rw [abs_le] at hhalf ⊢
      constructor <;> linarith [hhalf.1, hhalf.2]
    have hfixed : (Binary.finite negative rank hlt : Double).fixed 2 = signed negative (whole ++ ['.', a, b]) :=
      congrArg (signed negative) htext
    rw [hfixed]
    refine ⟨_, .mk negative hne hdigits, ?_⟩
    cases negative with
    | false => exact herror
    | true =>
      show |-(digitsValue (whole ++ [a, b]) / 100 : ℚ) - -x| ≤ 1 / 200
      rw [← neg_sub', abs_neg]
      exact herror

private theorem IsHundredths.mem {text : List Char} {q : ℚ} (h : IsHundredths text q) :
    '.' ∈ text ∧ ∀ c ∈ text, c.isDigit = true ∨ c = '.' ∨ c = '-' := by
  obtain ⟨negative, hne, hdigits⟩ := h
  rename_i whole a b
  have hbody : ∀ c ∈ whole ++ ['.', a, b], c.isDigit = true ∨ c = '.' := by
    intro c hc
    by_cases hpoint : c = '.'
    · exact Or.inr hpoint
    · refine Or.inl (hdigits c ?_)
      simpa [hpoint] using hc
  cases negative with
  | false => exact ⟨by simp [signed], fun c hc => (hbody c hc).imp_right Or.inl⟩
  | true =>
    refine ⟨by simp [signed], fun c hc => ?_⟩
    rcases List.mem_cons.1 hc with rfl | hc
    · exact Or.inr (Or.inr rfl)
    · exact (hbody c hc).imp_right Or.inl

/-! ### The text of a value -/

/-- The texts that stand for a value. -/
inductive Shows : Option Double → List Char → Prop
  | unset : Shows none ['-', '-']
  | word {v : Double} (hv : v.isFinite = false) {text : List Char}
      (htext : text ∈ ["NaN".toList, "inf".toList, "-inf".toList]) : Shows (some v) text
  | decimal {v : Double} (hv : v.isFinite = true) {text : List Char} {q : ℚ} (htext : IsHundredths text q)
      (herror : |q - v.toRat| ≤ 1 / 200) : Shows (some v) text

private theorem shows_valueChars (value : Option Double) : Shows value (valueChars value) := by
  obtain _ | v := value
  · exact .unset
  · cases hfinite : v.isFinite with
    | true =>
      obtain ⟨q, hq, herror⟩ := isHundredths_fixed hfinite
      exact .decimal hfinite hq herror
    | false =>
      refine .word hfinite ?_
      obtain _ | ⟨_ | _⟩ | _ := v
      · exact List.mem_cons_self
      · exact List.mem_cons_of_mem _ List.mem_cons_self
      · exact List.mem_cons_of_mem _ (List.mem_cons_of_mem _ List.mem_cons_self)
      · cases hfinite

namespace Shows

variable {value : Option Double} {text : List Char}

/-- The text of a value is made of letters, digits, dashes and points. -/
private theorem all_plain (h : Shows value text) :
    (text.all fun c => c.isDigit || c.isAlpha || c == '-' || c == '.') = true := by
  cases h with
  | unset => rfl
  | word hv htext =>
    simp only [List.mem_cons, List.not_mem_nil, or_false] at htext
    rcases htext with rfl | rfl | rfl <;> rfl
  | decimal hv htext herror =>
    rw [List.all_eq_true]
    intro c hc
    rcases htext.mem.2 c hc with hc | rfl | rfl
    · simp [hc]
    · rfl
    · rfl

private theorem not_mem (h : Shows value text) {c : Char}
    (hc : (c.isDigit || c.isAlpha || c == '-' || c == '.') = false) : c ∉ text :=
  fun hmem => by simp [List.all_eq_true.1 h.all_plain c hmem] at hc

private theorem ne_nil (h : Shows value text) : text ≠ [] := by
  cases h with
  | unset => simp
  | word hv htext =>
    rintro rfl
    simp at htext
  | decimal hv htext herror => exact List.ne_nil_of_mem htext.mem.1

/-- Only a missing value has dashes. -/
private theorem eq_dashes_iff (h : Shows value text) : text = ['-', '-'] ↔ value = none := by
  cases h with
  | unset => simp
  | word hv htext =>
    refine ⟨?_, nofun⟩
    rintro rfl
    simp at htext
  | decimal hv htext herror =>
    refine ⟨?_, nofun⟩
    rintro rfl
    simpa using htext.mem.1

end Shows

/-! ### Segments -/

/-- The parts of a text between all places with two spaces, from the left. -/
def segments : List Char → List (List Char)
  | ' ' :: ' ' :: rest => [] :: segments rest
  | c :: rest => (segments rest).modifyHead (c :: ·)
  | [] => [[]]

/-- A text is not divided, whatever follows it. -/
def Undivided (s : List Char) : Prop := ∀ rest, segments (s ++ rest) = (segments rest).modifyHead (s ++ ·)

private theorem segments_cons {c : Char} {rest : List Char} (h : c ≠ ' ' ∨ rest.head? ≠ some ' ') :
    segments (c :: rest) = (segments rest).modifyHead (c :: ·) := by
  rw [segments]
  rintro rest' rfl rfl
  simp at h

private theorem Undivided.append {s t : List Char} (hs : Undivided s) (ht : Undivided t) : Undivided (s ++ t) := by
  intro rest
  have hcomp : (s ++ ·) ∘ (t ++ ·) = (s ++ t ++ ·) := funext fun u => (List.append_assoc s t u).symm
  rw [List.append_assoc, hs, ht, List.modifyHead_modifyHead, hcomp]

private theorem undivided_of_not_mem {s : List Char} (h : ' ' ∉ s) : Undivided s := by
  induction s with
  | nil =>
    intro rest
    cases hrest : segments rest <;> simp [hrest]
  | cons c s ih =>
    obtain ⟨hc, hs⟩ : ' ' ≠ c ∧ ' ' ∉ s := by simpa using h
    intro rest
    rw [List.cons_append, segments_cons (Or.inl (Ne.symm hc)), ih hs, List.modifyHead_modifyHead]
    rfl

private theorem undivided_space {s : List Char} (h : ' ' ∉ s) (hne : s ≠ []) : Undivided (' ' :: s) := by
  obtain ⟨c, s, rfl⟩ := List.exists_cons_of_ne_nil hne
  have hc : c ≠ ' ' := fun heq => h (by simp [heq])
  intro rest
  rw [List.cons_append, segments_cons (Or.inr (by simpa using hc)), undivided_of_not_mem h, List.modifyHead_modifyHead]
  rfl

/-- A text that was put together with gaps divides into its parts again. -/
private theorem segments_intercalate {parts : List (List Char)} (hne : parts ≠ []) (h : ∀ s ∈ parts, Undivided s) :
    segments (gap.intercalate parts) = parts := by
  induction parts with
  | nil => exact absurd rfl hne
  | cons s rest ih =>
    have hs := h s (by simp)
    cases rest with
    | nil => simpa [segments] using hs []
    | cons t rest =>
      have hrest := ih (List.cons_ne_nil t rest) fun u hu => h u (by simp [hu])
      rw [List.intercalate_cons_cons, List.append_assoc, hs]
      show List.modifyHead (s ++ ·) ([] :: segments (gap.intercalate (t :: rest))) = _
      rw [hrest]
      simp

/-! ### Reading a line -/

/-- What stands in front of the value of a field. -/
def label (k : Field) : List Char := k.name.toList ++ [':', ' ']

/-- Whether a part of the line is in brackets, and what is left without them. -/
def unbracketed : List Char → Bool × List Char
  | '[' :: rest => (true, rest.dropLast)
  | part => (false, part)

/-- The field that a line shows as selected. -/
def selectedIn? (line : List Char) : Option Field :=
  ((Field.all.zip (segments line)).find? fun part => (unbracketed part.2).1).map (·.1)

/-- What a line shows for a field. -/
def shownIn (line : List Char) (k : Field) : List Char :=
  (unbracketed ((segments line).getD k.index [])).2.drop (label k).length

variable (values : PerField (Option Double)) (selected : Field)

private theorem undivided_fieldChars (k : Field) (value : Option Double) (b : Bool) :
    Undivided (fieldChars k value b) := by
  have hshows := shows_valueChars value
  have hname : ' ' ∉ k.name.toList ++ [':'] := by cases k <;> simp [Field.name]
  have hvalue : ' ' ∉ valueChars value := hshows.not_mem rfl
  have hplain : Undivided (k.name.toList ++ [':'] ++ ' ' :: valueChars value) :=
    (undivided_of_not_mem hname).append (undivided_space hvalue hshows.ne_nil)
  rw [List.append_assoc] at hplain
  cases b with
  | false => exact hplain
  | true =>
    have hopen : Undivided ['['] := undivided_of_not_mem (by simp)
    have hclose : Undivided [']'] := undivided_of_not_mem (by simp)
    exact hopen.append (hplain.append hclose)

private theorem segments_chars :
    segments (chars values selected) = Field.all.map fun k => fieldChars k (values.get k) (k = selected) := by
  refine segments_intercalate (by simp [Field.all]) fun s hs => ?_
  obtain ⟨k, -, rfl⟩ := List.mem_map.1 hs
  exact undivided_fieldChars k _ _

private theorem unbracketed_fieldChars (k : Field) (value : Option Double) (b : Bool) :
    unbracketed (fieldChars k value b) = (b, label k ++ valueChars value) := by
  cases b with
  | false => cases k <;> rfl
  | true =>
    show (true, (k.name.toList ++ ':' :: ' ' :: valueChars value ++ [']']).dropLast) = _
    rw [List.dropLast_concat]
    simp [label]

private theorem selectedIn?_chars : selectedIn? (chars values selected) = some selected := by
  rw [selectedIn?, segments_chars]
  simp only [Field.all, List.map_cons, List.map_nil, List.zip_cons_cons, List.zip_nil_right, List.find?_cons,
    unbracketed_fieldChars]
  cases selected <;> rfl

private theorem shownIn_chars (k : Field) : shownIn (chars values selected) k = valueChars (values.get k) := by
  have hpart : (segments (chars values selected)).getD k.index [] = fieldChars k (values.get k) (k = selected) := by
    rw [segments_chars]
    cases k <;> rfl
  rw [shownIn, hpart, unbracketed_fieldChars, List.drop_left]

/-- The line of a panel divides at its double spaces into one part for each field, in the order of the fields.  A part
is the name of the field and what is shown for its value, and the part of the selected field, but no other, is in
brackets.  Dashes are shown for a missing value only, and for a finite value a decimal with two places that is at most
half a hundredth away from it.  So the line tells the selected field, the missing values, and all finite ones up to
that. -/
theorem line_is_unambiguous :
    let line := (text values selected).toList
    (segments line = Field.all.map fun k =>
      if k = selected then '[' :: (label k ++ shownIn line k ++ [']']) else label k ++ shownIn line k) ∧
    selectedIn? line = some selected ∧
    ∀ k, (shownIn line k = ['-', '-'] ↔ values.get k = none) ∧ '[' ∉ shownIn line k ∧ ']' ∉ shownIn line k ∧
      ∀ v, values.get k = some v → v.isFinite = true →
        ∃ q, IsHundredths (shownIn line k) q ∧ |q - v.toRat| ≤ 1 / 200 ∧ number? (shownIn line k) = some q := by
  intro line
  have hline : line = chars values selected := String.toList_ofList
  simp only [hline, shownIn_chars, selectedIn?_chars, segments_chars, true_and]
  refine ⟨?_, fun k => ?_⟩
  · refine List.map_congr_left fun k _ => ?_
    by_cases hk : k = selected <;> simp [fieldChars, label, hk]
  · have hshows := shows_valueChars (values.get k)
    refine ⟨hshows.eq_dashes_iff, hshows.not_mem rfl, hshows.not_mem rfl, fun v hv hfinite => ?_⟩
    rw [hv] at hshows ⊢
    cases hshows with
    | word hnot => simp [hfinite] at hnot
    | decimal _ htext herror => exact ⟨_, htext, herror, htext.number?_eq⟩

end Line

end CameraPanel
