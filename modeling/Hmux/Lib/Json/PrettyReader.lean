import Hmux.Lib.Json.Paths
import Hmux.Lib.Json.Pretty
import Hmux.Lib.Json.Reader

namespace Hmux.Lib.Json

/-!
# A reader of indented texts

`squeezed` takes the white space between tokens out of a text; what is left of an indented text is
the compact one, which `Compact.serde` reads.  `prettyReader` reads so, and only what is in the
order of its keys and not nested too deep.

* `squeezed_pretty` — an indented text becomes the compact text;
* `prettyReader_reads` — every value without doubles is read back from its indented text.

The reader exists to show that the assumption about a file that was written with indentation can be
met; the theorems about such files take any reader that reads back what was written.
-/

/-- A text without the white space between its tokens; the flags are those of a string and of an
    escape within it. -/
def squeezed : Bool → Bool → List UInt8 → List UInt8
  | _, _, [] => []
  | true, true, b :: raw => b :: squeezed true false raw
  | true, false, b :: raw =>
    b :: (if b = 92 then squeezed true true raw else squeezed (b ≠ 34) false raw)
  | false, _, b :: raw =>
    if Serde.isBlank b then squeezed false false raw else b :: squeezed (b = 34) false raw

section

variable {raw word : List UInt8} {format : UInt64 → List UInt8}

/-- Nothing within a text is squeezed out. -/
theorem squeezed_escaped (b : UInt8) (raw : List UInt8) :
    squeezed true false (escape b ++ raw) = escape b ++ squeezed true false raw := by
  have htwo : ∀ (e : UInt8) (raw : List UInt8), squeezed true false (92 :: e :: raw) =
      92 :: e :: squeezed true false raw := by
    intro e raw
    rw [squeezed, if_pos rfl, squeezed]
  unfold escape
  split
  · exact htwo 34 raw
  · next hquote =>
    split
    · exact htwo 92 raw
    · next hslash =>
      split
      · exact htwo 98 raw
      · split
        · exact htwo 116 raw
        · split
          · exact htwo 110 raw
          · split
            · exact htwo 102 raw
            · split
              · exact htwo 114 raw
              · split
                · next hcontrol =>
                  -- the digits of the escape end neither it nor the string
                  have hplain : ∀ n : UInt8, n < 16 → hexDigit n ≠ 92 ∧ hexDigit n ≠ 34 := by
                    have hall : ∀ n : Fin 16, hexDigit (UInt8.ofNat n) ≠ 92 ∧
                        hexDigit (UInt8.ofNat n) ≠ 34 := by decide
                    intro n hn
                    have hone := hall ⟨n.toNat, hn⟩
                    dsimp only at hone
                    rwa [UInt8.ofNat_toNat] at hone
                  have hnext : ∀ (d : UInt8) (raw : List UInt8), d ≠ 92 → d ≠ 34 →
                      squeezed true false (d :: raw) = d :: squeezed true false raw := by
                    intro d raw hslash hquote
                    rw [squeezed, if_neg hslash, decide_eq_true hquote]
                  have hhigh : b / 16 < 16 := by
                    rw [UInt8.lt_iff_toNat_lt, UInt8.toNat_div]
                    have := b.toNat_lt
                    show b.toNat / 16 < 16
                    omega
                  have hlow : b % 16 < 16 := by
                    rw [UInt8.lt_iff_toNat_lt, UInt8.toNat_mod]
                    exact Nat.mod_lt _ (by decide)
                  show squeezed true false (92 :: 117 :: 48 :: 48 :: hexDigit (b / 16) ::
                    hexDigit (b % 16) :: raw) = _
                  rw [htwo, hnext 48 _ (by decide) (by decide), hnext 48 _ (by decide) (by decide),
                    hnext _ _ (hplain _ hhigh).1 (hplain _ hhigh).2,
                    hnext _ _ (hplain _ hlow).1 (hplain _ hlow).2]
                  rfl
                · show squeezed true false (b :: raw) = b :: squeezed true false raw
                  rw [squeezed, if_neg hslash, decide_eq_true hquote]

/-- A string stays as it is. -/
theorem squeezed_quote (s : String) (raw : List UInt8) :
    squeezed false false (quote s ++ raw) = quote s ++ squeezed false false raw := by
  have hbody : ∀ l : List UInt8, squeezed true false (l.flatMap escape ++ (34 :: raw)) =
      l.flatMap escape ++ (34 :: squeezed false false raw) := by
    intro l
    induction l with
    | nil =>
      show squeezed true false (34 :: raw) = 34 :: squeezed false false raw
      rw [squeezed, if_neg (by decide)]
      rfl
    | cons b l ih =>
      rw [List.flatMap_cons, List.append_assoc, squeezed_escaped, ih, List.append_assoc]
  unfold quote
  rw [List.cons_append, List.append_assoc, List.singleton_append, squeezed, if_neg (by decide),
    decide_eq_true rfl, hbody, List.cons_append, List.append_assoc, List.singleton_append]

/-- So does a word without quotes. -/
theorem squeezed_word (h : ∀ b ∈ word, Serde.isBlank b = false ∧ b ≠ 34) (raw : List UInt8) :
    squeezed false false (word ++ raw) = word ++ squeezed false false raw := by
  induction word with
  | nil => rfl
  | cons b word ih =>
    obtain ⟨hblank, hquote⟩ := h b List.mem_cons_self
    rw [List.cons_append, squeezed, hblank, if_neg Bool.noConfusion, decide_eq_false hquote,
      ih fun c hc => h c (List.mem_cons_of_mem _ hc), List.cons_append]

/-- Bytes other than blanks stay. -/
theorem squeezed_cons {b : UInt8} (hblank : Serde.isBlank b = false) (hquote : b ≠ 34)
    (raw : List UInt8) : squeezed false false (b :: raw) = b :: squeezed false false raw := by
  rw [squeezed, hblank, if_neg Bool.noConfusion, decide_eq_false hquote]

/-- Blanks go. -/
theorem squeezed_blanks (h : ∀ b ∈ word, Serde.isBlank b = true) (raw : List UInt8) :
    squeezed false false (word ++ raw) = squeezed false false raw := by
  induction word with
  | nil => rfl
  | cons b word ih =>
    rw [List.cons_append, squeezed, h b List.mem_cons_self, if_pos rfl]
    exact ih fun c hc => h c (List.mem_cons_of_mem _ hc)

/-- A new line goes with its indentation. -/
theorem squeezed_newLine (level : ℕ) (raw : List UInt8) :
    squeezed false false (newLine level ++ raw) = squeezed false false raw := by
  apply squeezed_blanks
  intro b hb
  rcases List.mem_cons.mp hb with rfl | hb
  · decide
  · rw [List.eq_of_mem_replicate hb]
    decide

/-- A number has no blanks and no quotes. -/
theorem numeral_free (n : ℤ) : ∀ b ∈ decimal n, Serde.isBlank b = false ∧ b ≠ 34 := by
  intro b hb
  have hnumeral := Compact.isNumeral_decimal n b hb
  unfold Compact.isNumeral at hnumeral
  rw [Bool.or_eq_true, Bool.and_eq_true, decide_eq_true_eq, decide_eq_true_eq,
    decide_eq_true_eq] at hnumeral
  have hrange : 34 < b := by
    rw [UInt8.lt_iff_toNat_lt]
    rcases hnumeral with ⟨hlow, -⟩ | rfl
    · exact lt_of_lt_of_le (by decide : (34 : UInt8).toNat < (48 : UInt8).toNat) hlow
    · decide
  have hne : ∀ c : UInt8, c ≤ 34 → b ≠ c := fun c hc heq =>
    absurd (heq ▸ hrange : 34 < c) (UInt8.not_lt.mpr hc)
  refine ⟨?_, hne 34 (by decide)⟩
  unfold Serde.isBlank
  rw [decide_eq_false (hne 32 (by decide)), decide_eq_false (hne 9 (by decide)),
    decide_eq_false (hne 10 (by decide)), decide_eq_false (hne 13 (by decide))]
  rfl

/-- The blank after a colon goes. -/
theorem squeezed_colon (raw : List UInt8) :
    squeezed false false (58 :: 32 :: raw) = 58 :: squeezed false false raw := by
  rw [squeezed_cons (by decide) (by decide), squeezed, if_pos (by decide)]

/-! ### Indented texts

By recursion on the value, along the writer: between two tokens there is white space only. -/

mutual

/-- **An indented text** becomes the compact text. -/
theorem squeezed_pretty (level : ℕ) (j : Json) (h : Compact.plain j = true) (raw : List UInt8) :
    squeezed false false (pretty format level j ++ raw) =
      text format j ++ squeezed false false raw := by
  cases j with
  | null =>
    show squeezed false false (bytes "null" ++ raw) = bytes "null" ++ _
    exact squeezed_word (forall_of_all (by decide)) raw
  | bool b =>
    have hword : ∀ c ∈ bytes (if b then "true" else "false"), Serde.isBlank c = false ∧ c ≠ 34 := by
      cases b
      · exact forall_of_all (by decide)
      · exact forall_of_all (by decide)
    exact squeezed_word hword raw
  | int n => exact squeezed_word (numeral_free n) raw
  | float bits => cases h
  | str s => exact squeezed_quote s raw
  | arr items =>
    cases items with
    | nil =>
      show squeezed false false ([91, 93] ++ raw) = [91, 93] ++ _
      exact squeezed_word (forall_of_all (by decide)) raw
    -- the line feed and the indentation before an item and before the bracket are squeezed away
    | cons j items =>
      rw [Compact.plain, Compact.plainItems, Bool.and_eq_true] at h
      have hclose : squeezed false false (93 :: raw) = 93 :: squeezed false false raw :=
        squeezed_cons (by decide) (by decide) raw
      rw [pretty, text, textItems]
      simp only [List.cons_append, List.append_assoc, List.nil_append]
      rw [squeezed_cons (by decide) (by decide), squeezed_newLine,
        squeezed_pretty (level + 1) j h.1, squeezed_prettyMore (level + 1) items h.2,
        squeezed_newLine, hclose]
  | obj fields =>
    cases fields with
    | nil =>
      show squeezed false false ([123, 125] ++ raw) = [123, 125] ++ _
      exact squeezed_word (forall_of_all (by decide)) raw
    | cons e fields =>
      obtain ⟨key, j⟩ := e
      rw [Compact.plain, Compact.plainFields, Bool.and_eq_true] at h
      have hclose : squeezed false false (125 :: raw) = 125 :: squeezed false false raw :=
        squeezed_cons (by decide) (by decide) raw
      rw [pretty, text, textFields]
      simp only [List.cons_append, List.append_assoc, List.nil_append]
      rw [squeezed_cons (by decide) (by decide), squeezed_newLine, squeezed_quote, squeezed_colon,
        squeezed_pretty (level + 1) j h.1, squeezed_prettyMoreFields (level + 1) fields h.2,
        squeezed_newLine, hclose]

/-- More items of an array are squeezed to their compact form. -/
theorem squeezed_prettyMore (level : ℕ) (items : List Json) (h : Compact.plainItems items = true)
    (raw : List UInt8) :
    squeezed false false (prettyMore format level items ++ raw) =
      textMore format items ++ squeezed false false raw := by
  cases items with
  | nil => rfl
  | cons j items =>
    rw [Compact.plainItems, Bool.and_eq_true] at h
    rw [prettyMore, textMore, List.cons_append, squeezed_cons (by decide) (by decide),
      List.append_assoc, List.append_assoc, squeezed_newLine, squeezed_pretty level j h.1,
      squeezed_prettyMore level items h.2, List.cons_append, List.append_assoc]

/-- More fields of an object are squeezed to their compact form. -/
theorem squeezed_prettyMoreFields (level : ℕ) (fields : List (String × Json))
    (h : Compact.plainFields fields = true) (raw : List UInt8) :
    squeezed false false (prettyMoreFields format level fields ++ raw) =
      textMoreFields format fields ++ squeezed false false raw := by
  cases fields with
  | nil => rfl
  | cons e fields =>
    obtain ⟨key, j⟩ := e
    rw [Compact.plainFields, Bool.and_eq_true] at h
    rw [prettyMoreFields, textMoreFields]
    simp only [List.cons_append, List.append_assoc, List.nil_append]
    rw [squeezed_cons (by decide) (by decide), squeezed_newLine, squeezed_quote, squeezed_colon,
      squeezed_pretty level j h.1, squeezed_prettyMoreFields level fields h.2]

end

end

/-! ### The reader

What is left of an indented text is read by the compact reader, which reads back every value
without doubles. -/

mutual

/-- Integers are not doubles. -/
theorem plain_of_integral (j : Json) (h : j.integral = true) : Compact.plain j = true := by
  cases j with
  | float bits =>
    rw [integral] at h
    cases h
  | arr items =>
    rw [integral] at h
    rw [Compact.plain]
    exact plainItems_of_integral items h
  | obj fields =>
    rw [integral] at h
    rw [Compact.plain]
    exact plainFields_of_integral fields h
  | _ => rfl

/-- Integral values in an array are plain. -/
theorem plainItems_of_integral (items : List Json) (h : integralItems items = true) :
    Compact.plainItems items = true := by
  cases items with
  | nil => rfl
  | cons j items =>
    rw [integralItems, Bool.and_eq_true] at h
    rw [Compact.plainItems, plain_of_integral j h.1, plainItems_of_integral items h.2]
    rfl

/-- Integral values in an object are plain. -/
theorem plainFields_of_integral (fields : List (String × Json))
    (h : integralFields fields = true) : Compact.plainFields fields = true := by
  cases fields with
  | nil => rfl
  | cons e fields =>
    obtain ⟨key, j⟩ := e
    rw [integralFields, Bool.and_eq_true] at h
    rw [Compact.plainFields, plain_of_integral j h.1, plainFields_of_integral fields h.2]
    rfl

end

/-- A reader of indented texts without doubles, with a writer that has no doubles. -/
def prettyReader (depth : ℕ) : Serde :=
  ⟨fun _ => [], fun _ => 0, fun raw =>
    match Compact.serde.read (squeezed false false raw) with
    | some (j, rest) => if j.ordered depth then some (j, rest) else none
    | none => none⟩

/-- What is read is ordered. -/
theorem prettyReader_ordered {depth : ℕ} {raw : List UInt8} {j : Json}
    (h : (prettyReader depth).fromSlice raw = some j) : j.ordered depth = true := by
  unfold Serde.fromSlice at h
  split at h
  · next v rest hread =>
    split at h
    · cases h
      dsimp only [prettyReader] at hread
      split at hread
      · split at hread
        · next hordered =>
          cases hread
          exact hordered
        · cases hread
      · cases hread
    · cases h
  · cases h

/-- **Every value without doubles** is read back from its indented text and a line feed. -/
theorem prettyReader_reads {depth : ℕ} {j : Json} (hordered : j.ordered depth = true)
    (h : j.integral = true) :
    (prettyReader depth).fromSlice (pretty (prettyReader depth).format 0 j ++ [10]) = some j := by
  have hplain := plain_of_integral j h
  have hsqueezed : squeezed false false (pretty (prettyReader depth).format 0 j ++ [10]) =
      Compact.serde.text j := by
    rw [squeezed_pretty 0 j hplain, squeezed, if_pos (by decide), squeezed, List.append_nil]
    rfl
  have hread : (prettyReader depth).read (pretty (prettyReader depth).format 0 j ++ [10]) =
      some (j, []) := by
    dsimp only [prettyReader] at hsqueezed ⊢
    rw [hsqueezed, show Compact.serde.read (Compact.serde.text j) = some (j, []) from
      Compact.serde_reads hplain]
    dsimp only
    rw [if_pos hordered]
  unfold Serde.fromSlice
  rw [hread]
  rfl

end Hmux.Lib.Json
