import CameraPanel.Json.Strings

/-!
# The grammar of JSON strings

`IsBody` says what may stand between the quotes of a string and which characters it stands for: plain characters stand
for themselves, and an escape is a letter, the code of a character, or the codes of a high and a low surrogate.  The
reader takes exactly these texts (`exists_of_readString`, `readString_append`).  It has to be told when to stop, but the
length of the text is always enough: every character of the string takes at least one character of the text.
-/

namespace CameraPanel.Json

theorem bind_eq_ok_iff {α β : Type} {x : Except Fault α} {f : α → Except Fault β} {b : β} :
    x >>= f = .ok b ↔ ∃ a, x = .ok a ∧ f a = .ok b := by
  cases x with
  | error e => simp [bind, Except.bind]
  | ok a => simp [bind, Except.bind]

/-! ### The grammar -/

/-- Four hexadecimal digits and their value. -/
inductive IsHex : List Char → Nat → Prop
  | mk {a b c d : Char} {i j k l : Nat} (ha : Text.hexDigit? a = some i) (hb : Text.hexDigit? b = some j)
      (hc : Text.hexDigit? c = some k) (hd : Text.hexDigit? d = some l) :
      IsHex [a, b, c, d] (0x1000 * i + 0x100 * j + 0x10 * k + l)

/-- What follows the backslash of an escape, and the character that the escape stands for. -/
inductive IsEscape : List Char → Char → Prop
  | letter {l c : Char} (h : escapeLetter? l = some c) : IsEscape [l] c
  | code {ds : List Char} {c : Char} (h : IsHex ds c.toNat) : IsEscape ('u' :: ds) c
  | pair {ds ds' : List Char} {high low : Nat} {c : Char} (hhigh : IsHex ds (0xD800 + high)) (hhigh' : high < 0x400)
      (hlow : IsHex ds' (0xDC00 + low)) (hlow' : low < 0x400) (hc : c.toNat = 0x10000 + 0x400 * high + low) :
      IsEscape ('u' :: (ds ++ '\\' :: 'u' :: ds')) c

/-- What stands between the quotes of a string, and the characters that it stands for. -/
inductive IsBody : List Char → List Char → Prop
  | nil : IsBody [] []
  | plain {c : Char} {cs s : List Char} (hquote : c ≠ '"') (hback : c ≠ '\\') (hcontrol : 0x20 ≤ c.toNat)
      (h : IsBody cs s) : IsBody (c :: cs) (c :: s)
  | escape {e : List Char} {c : Char} {cs s : List Char} (he : IsEscape e c) (h : IsBody cs s) :
      IsBody ('\\' :: (e ++ cs)) (c :: s)

/-! ### Codes -/

private theorem hexDigit?_bounds {c : Char} {n : Nat} (h : Text.hexDigit? c = some n) : n < 16 ∧ c.toNat < 0x80 := by
  unfold Text.hexDigit? at h
  have hzero : '0'.toNat = 48 := rfl
  have hnine : '9'.toNat = 57 := rfl
  split at h
  · rename_i hc
    have hrange := Char.isDigit_iff_toNat.1 hc
    cases h
    omega
  · split at h
    · rename_i hc
      have hlow : 97 ≤ c.toNat := UInt32.le_iff_toNat_le.1 hc.1
      have hhigh : c.toNat ≤ 102 := UInt32.le_iff_toNat_le.1 hc.2
      have ha : 'a'.toNat = 97 := rfl
      cases h
      omega
    · split at h
      · rename_i hc
        have hlow : 65 ≤ c.toNat := UInt32.le_iff_toNat_le.1 hc.1
        have hhigh : c.toNat ≤ 70 := UInt32.le_iff_toNat_le.1 hc.2
        have hA : 'A'.toNat = 65 := rfl
        cases h
        omega
      · cases h

private theorem utf8Size_of_hexDigit? {c : Char} {n : Nat} (h : Text.hexDigit? c = some n) : c.utf8Size = 1 := by
  have hlt := (hexDigit?_bounds h).2
  rw [Char.utf8Size_eq_one_iff, UInt32.le_iff_toNat_le]
  exact Nat.le_of_lt_succ hlt

private theorem IsHex.lt {ds : List Char} {n : Nat} (h : IsHex ds n) : n < 0x10000 := by
  cases h with
  | mk ha hb hc hd =>
    have := (hexDigit?_bounds ha).1
    have := (hexDigit?_bounds hb).1
    have := (hexDigit?_bounds hc).1
    have := (hexDigit?_bounds hd).1
    omega

private theorem toNat_charOfNat {n : Nat} (h : n.isValidChar) : (Char.ofNat n).toNat = n := by
  have hchar : Char.ofNat n = Char.ofNatAux n h := dif_pos h
  rw [hchar]
  rfl

private theorem not_surrogate (c : Char) : c.toNat < 0xD800 ∨ 0xDFFF < c.toNat := by
  rcases c.valid with h | ⟨h, -⟩
  · exact .inl h
  · exact .inr h

/-- One more hexadecimal digit. -/
def hexStep (n? : Option Nat) (c : Char) : Option Nat := do return 16 * (← n?) + (← Text.hexDigit? c)

private theorem hexValue?_eq (ds : List Char) : Text.hexValue? ds = ds.foldl hexStep (some 0) := rfl

private theorem foldl_hexStep_cons {n m : Nat} {d : Char} {ds : List Char} :
    (d :: ds).foldl hexStep (some n) = some m ↔
      ∃ i, Text.hexDigit? d = some i ∧ ds.foldl hexStep (some (16 * n + i)) = some m := by
  have hnone : ds.foldl hexStep none = none := by
    induction ds with
    | nil => rfl
    | cons d ds ih => exact ih
  rw [List.foldl_cons]
  cases hd : Text.hexDigit? d with
  | none =>
    have hstep : hexStep (some n) d = none := by simp [hexStep, hd]
    simp [hstep, hnone]
  | some i =>
    have hstep : hexStep (some n) d = some (16 * n + i) := by simp [hexStep, hd]
    simp [hstep]

private theorem utf8Size_of_hexValue? {ds : List Char} {n m : Nat} (h : ds.foldl hexStep (some n) = some m) :
    ∀ d ∈ ds, d.utf8Size = 1 := by
  induction ds generalizing n with
  | nil => simp
  | cons d ds ih =>
    obtain ⟨i, hd, hds⟩ := foldl_hexStep_cons.1 h
    intro c hc
    rcases List.mem_cons.1 hc with rfl | hc
    · exact utf8Size_of_hexDigit? hd
    · exact ih hds c hc

private theorem byteCount_of_utf8Size {cs : List Char} (h : ∀ c ∈ cs, c.utf8Size = 1) : byteCount cs = cs.length := by
  have hfold : ∀ (cs : List Char) (n : Nat), (∀ c ∈ cs, c.utf8Size = 1) →
      cs.foldl (fun n c => n + c.utf8Size) n = n + cs.length := by
    intro cs
    induction cs with
    | nil => simp
    | cons c cs ih =>
      intro n h
      obtain ⟨hc, hcs⟩ := List.forall_mem_cons.1 h
      rw [List.foldl_cons, ih _ hcs, hc, List.length_cons]
      omega
  simpa [byteCount] using hfold cs 0 h

private theorem hexValue?_of_isHex {ds : List Char} {n : Nat} (h : IsHex ds n) : Text.hexValue? ds = some n := by
  cases h with
  | @mk a b c d i j k l ha hb hc hd =>
    have hvalue : 16 * (16 * (16 * (16 * 0 + i) + j) + k) + l = 0x1000 * i + 0x100 * j + 0x10 * k + l := by omega
    rw [hexValue?_eq, foldl_hexStep_cons]
    refine ⟨i, ha, foldl_hexStep_cons.2 ⟨j, hb, foldl_hexStep_cons.2 ⟨k, hc, foldl_hexStep_cons.2 ⟨l, hd, ?_⟩⟩⟩⟩
    rw [hvalue]
    rfl

private theorem isHex_of_hexValue? {ds : List Char} {n : Nat} (hlen : ds.length = 4) (h : Text.hexValue? ds = some n) :
    IsHex ds n := by
  obtain ⟨a, b, c, d, rfl⟩ : ∃ a b c d, ds = [a, b, c, d] := by
    rcases ds with _ | ⟨a, _ | ⟨b, _ | ⟨c, _ | ⟨d, _ | ⟨e, ds⟩⟩⟩⟩⟩ <;> simp at hlen
    exact ⟨a, b, c, d, rfl⟩
  rw [hexValue?_eq] at h
  obtain ⟨i, ha, h⟩ := foldl_hexStep_cons.1 h
  obtain ⟨j, hb, h⟩ := foldl_hexStep_cons.1 h
  obtain ⟨k, hc, h⟩ := foldl_hexStep_cons.1 h
  obtain ⟨l, hd, h⟩ := foldl_hexStep_cons.1 h
  have hvalue : n = 0x1000 * i + 0x100 * j + 0x10 * k + l := by
    rw [List.foldl_nil, Option.some.injEq] at h
    omega
  rw [hvalue]
  exact .mk ha hb hc hd

/-! ### Reading escapes -/

private theorem IsHex.length {ds : List Char} {n : Nat} (h : IsHex ds n) : ds.length = 4 := by
  cases h
  rfl

private theorem readHex_append {ds : List Char} {n : Nat} (h : IsHex ds n) (rest : List Char) (offset : Nat) :
    readHex ⟨ds ++ rest, offset⟩ = .ok (n, ⟨rest, offset + 4⟩) := by
  have hvalue := hexValue?_of_isHex h
  have htake : (ds ++ rest).take 4 = ds := by rw [← h.length, List.take_left]
  have hdrop : (ds ++ rest).drop 4 = rest := by rw [← h.length, List.drop_left]
  have hbytes : ¬ byteCount ds < 4 := by
    rw [byteCount_of_utf8Size (utf8Size_of_hexValue? hvalue), h.length]
    omega
  simp only [readHex, htake, hdrop, if_neg hbytes, hvalue, Cursor.advance]

private theorem exists_of_readHex {c c' : Cursor} {n : Nat} (h : readHex c = .ok (n, c')) :
    ∃ ds, IsHex ds n ∧ c.rest = ds ++ c'.rest := by
  unfold readHex at h
  split at h
  · cases h
  · rename_i hbytes
    split at h
    · rename_i m hvalue
      cases h
      -- Hexadecimal digits are bytes, so that four bytes of them are four digits.
      rw [byteCount_of_utf8Size (utf8Size_of_hexValue? hvalue)] at hbytes
      have hlen : (c.rest.take 4).length = 4 := by
        have hle := List.length_take_le 4 c.rest
        omega
      exact ⟨_, isHex_of_hexValue? hlen hvalue, (List.take_append_drop 4 c.rest).symm⟩
    · cases h

private theorem readLowSurrogate_append {ds : List Char} {low : Nat} (h : IsHex ds (0xDC00 + low)) (hlow : low < 0x400)
    (high : Nat) (rest : List Char) (offset : Nat) :
    readLowSurrogate (0xD800 + high) ⟨'\\' :: 'u' :: (ds ++ rest), offset⟩ =
      .ok (Char.ofNat (0x10000 + 0x400 * high + low), ⟨rest, offset + 1 + 1 + 4⟩) := by
  have hrange : 0xDC00 ≤ 0xDC00 + low ∧ 0xDC00 + low ≤ 0xDFFF := by omega
  simp only [readLowSurrogate, Cursor.advance, readHex_append h, bind, Except.bind, if_pos hrange,
    Nat.add_sub_cancel_left]
  rfl

private theorem exists_of_readLowSurrogate {high : Nat} {c c' : Cursor} {ch : Char}
    (h : readLowSurrogate (0xD800 + high) c = .ok (ch, c')) :
    ∃ ds low, IsHex ds (0xDC00 + low) ∧ low < 0x400 ∧ c.rest = '\\' :: 'u' :: (ds ++ c'.rest) ∧
      ch = Char.ofNat (0x10000 + 0x400 * high + low) := by
  unfold readLowSurrogate at h
  split at h
  · cases h
  · rename_i rest hrest
    simp only [Cursor.advance] at h
    split at h
    · cases h
    · rename_i rest'
      obtain ⟨⟨n, d⟩, hhex, h⟩ := bind_eq_ok_iff.1 h
      obtain ⟨ds, hds, hsplit⟩ := exists_of_readHex hhex
      dsimp only at h hsplit
      split at h
      · rename_i hrange
        obtain ⟨low, rfl⟩ := Nat.exists_eq_add_of_le hrange.1
        obtain ⟨hch, hd⟩ := Prod.mk.inj (Except.ok.inj h)
        rw [Nat.add_sub_cancel_left, Nat.add_sub_cancel_left] at hch
        exact ⟨ds, low, hds, by omega, by rw [hrest, hsplit, hd], hch.symm⟩
      · cases h
    · cases h
  · cases h

private theorem readEscape_append {e : List Char} {c : Char} (h : IsEscape e c) (rest : List Char) (offset : Nat) :
    ∃ offset', readEscape ⟨e ++ rest, offset⟩ = .ok (c, ⟨rest, offset'⟩) := by
  cases h with
  | @letter l c h =>
    refine ⟨offset + 1, ?_⟩
    rw [List.singleton_append]
    unfold readEscape
    split
    · rename_i hnil
      cases hnil
    · rename_i heq
      obtain ⟨rfl, -⟩ := List.cons.inj heq
      cases h
    · rename_i heq
      obtain ⟨rfl, rfl⟩ := List.cons.inj heq
      rw [h]
      rfl
  | @code ds c h =>
    have hlow : ¬ (0xDC00 ≤ c.toNat ∧ c.toNat ≤ 0xDFFF) := by have := not_surrogate c; omega
    have hhigh : ¬ (0xD800 ≤ c.toNat ∧ c.toNat ≤ 0xDBFF) := by have := not_surrogate c; omega
    refine ⟨offset + 1 + 4, ?_⟩
    simp only [readEscape, List.cons_append, Cursor.advance, readHex_append h, bind, Except.bind, if_neg hlow,
      if_neg hhigh, Char.ofNat_toNat]
    rfl
  | @pair ds ds' high low c hhigh hhigh' hlow hlow' hc =>
    have hlow'' : ¬ (0xDC00 ≤ 0xD800 + high ∧ 0xD800 + high ≤ 0xDFFF) := by omega
    have hhigh'' : 0xD800 ≤ 0xD800 + high ∧ 0xD800 + high ≤ 0xDBFF := by omega
    refine ⟨offset + 1 + 4 + 1 + 1 + 4, ?_⟩
    simp only [readEscape, List.cons_append, List.append_assoc, Cursor.advance, readHex_append hhigh, bind, Except.bind,
      if_neg hlow'', if_pos hhigh'', readLowSurrogate_append hlow hlow', ← hc, Char.ofNat_toNat]

private theorem exists_of_readEscape {c c' : Cursor} {ch : Char} (h : readEscape c = .ok (ch, c')) :
    ∃ e, IsEscape e ch ∧ c.rest = e ++ c'.rest := by
  unfold readEscape at h
  split at h
  · cases h
  · rename_i rest hrest
    obtain ⟨⟨n, d⟩, hhex, h⟩ := bind_eq_ok_iff.1 h
    obtain ⟨ds, hds, hsplit⟩ := exists_of_readHex hhex
    have hlt := hds.lt
    simp only [Cursor.advance] at h hsplit
    split at h
    · cases h
    · rename_i hlow
      split at h
      · rename_i hhigh
        obtain ⟨high, rfl⟩ := Nat.exists_eq_add_of_le hhigh.1
        obtain ⟨ds', low, hds', hlow', hrest', rfl⟩ := exists_of_readLowSurrogate h
        have hvalid : (0x10000 + 0x400 * high + low).isValidChar := .inr (by omega)
        refine ⟨'u' :: (ds ++ '\\' :: 'u' :: ds'), ?_, by rw [hrest, hsplit, hrest']; simp⟩
        exact .pair hds (by omega) hds' hlow' (toNat_charOfNat hvalid)
      · rename_i hhigh
        cases h
        have hvalid : n.isValidChar := by
          unfold Nat.isValidChar
          omega
        refine ⟨'u' :: ds, .code ?_, by rw [hrest, hsplit]; rfl⟩
        rwa [toNat_charOfNat hvalid]
  · rename_i letter rest hne hrest
    split at h
    · rename_i ch' hletter
      cases h
      exact ⟨[letter], .letter hletter, hrest⟩
    · cases h

/-! ### Reading strings -/

private theorem readStringBody_append {cs s : List Char} (h : IsBody cs s) (rest : List Char) {n : Nat}
    (hn : cs.length < n) (done : List Char) (offset : Nat) :
    ∃ offset', readStringBody n done ⟨cs ++ '"' :: rest, offset⟩ = .ok (done.reverse ++ s, ⟨rest, offset'⟩) := by
  induction h generalizing n done offset with
  | nil =>
    obtain ⟨n, rfl⟩ := Nat.exists_eq_succ_of_ne_zero (Nat.ne_zero_of_lt hn)
    exact ⟨offset + 1, by simp [readStringBody, Cursor.advance]⟩
  | @plain c cs s hquote hback hcontrol h ih =>
    obtain ⟨n, rfl⟩ := Nat.exists_eq_succ_of_ne_zero (Nat.ne_zero_of_lt hn)
    rw [List.length_cons] at hn
    obtain ⟨offset', hread⟩ := ih (n := n) (by omega) (c :: done) (offset + c.utf8Size)
    have hcontrol' : ¬ c.toNat < 0x20 := by omega
    refine ⟨offset', ?_⟩
    rw [List.reverse_cons, List.append_assoc] at hread
    rw [readStringBody]
    simp only [List.cons_append, hcontrol', if_false, Cursor.advance]
    exact hread
  | @escape e c cs s he h ih =>
    obtain ⟨n, rfl⟩ := Nat.exists_eq_succ_of_ne_zero (Nat.ne_zero_of_lt hn)
    rw [List.length_cons, List.length_append] at hn
    obtain ⟨offset₁, hescape⟩ := readEscape_append he (cs ++ '"' :: rest) (offset + 1)
    obtain ⟨offset', hread⟩ := ih (n := n) (by omega) (c :: done) offset₁
    refine ⟨offset', ?_⟩
    rw [List.reverse_cons, List.append_assoc] at hread
    simp only [readStringBody, List.cons_append, List.append_assoc, Cursor.advance, hescape, bind, Except.bind]
    exact hread

private theorem exists_of_readStringBody {n : Nat} {done out : List Char} {c c' : Cursor}
    (h : readStringBody n done c = .ok (out, c')) :
    ∃ cs s, IsBody cs s ∧ c.rest = cs ++ '"' :: c'.rest ∧ out = done.reverse ++ s := by
  induction n generalizing done c with
  | zero => cases h
  | succ n ih =>
    unfold readStringBody at h
    split at h
    · cases h
    · rename_i rest hrest
      cases h
      exact ⟨[], [], .nil, hrest, (List.append_nil _).symm⟩
    · rename_i rest hrest
      obtain ⟨⟨ch, d⟩, hescape, h⟩ := bind_eq_ok_iff.1 h
      obtain ⟨e, he, hsplit⟩ := exists_of_readEscape hescape
      obtain ⟨cs, s, hbody, hrest', rfl⟩ := ih h
      refine ⟨'\\' :: (e ++ cs), ch :: s, .escape he hbody, ?_, by simp⟩
      have hsplit' : rest = e ++ d.rest := hsplit
      rw [hrest, hsplit', hrest']
      simp
    · rename_i ch rest hquote hback hrest
      split at h
      · cases h
      · rename_i hcontrol
        obtain ⟨cs, s, hbody, hrest', rfl⟩ := ih h
        have hrest'' : rest = cs ++ '"' :: c'.rest := hrest'
        exact ⟨ch :: cs, ch :: s, .plain hquote hback (by omega) hbody, by rw [hrest, hrest'']; rfl, by simp⟩

theorem readString_append {cs s : List Char} (h : IsBody cs s) (rest : List Char) (offset : Nat) :
    ∃ offset', readString ⟨cs ++ '"' :: rest, offset⟩ = .ok (s, ⟨rest, offset'⟩) := by
  have hlen : cs.length < (cs ++ '"' :: rest).length + 1 := by
    rw [List.length_append]
    omega
  exact readStringBody_append h rest hlen [] offset

theorem exists_of_readString {c c' : Cursor} {s : List Char} (h : readString c = .ok (s, c')) :
    ∃ cs, IsBody cs s ∧ c.rest = cs ++ '"' :: c'.rest := by
  obtain ⟨cs, s', hbody, hrest, rfl⟩ := exists_of_readStringBody h
  exact ⟨cs, hbody, hrest⟩

end CameraPanel.Json
