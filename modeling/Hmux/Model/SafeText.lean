import Hmux.Usage.Model
import Mathlib.Algebra.Order.BigOperators.Group.List
import Mathlib.Algebra.Order.Group.Nat
import Mathlib.Data.List.DropRight

namespace Hmux

/-!
# Texts that are safe to show

`safe_text` turns control characters into blanks, keeps as many characters as fit and trims what is
left.  A text that went through it stays as it is the next time (`safeText_safeText`), which is what
lets a store check a text it has cleaned itself.
-/

open Usage (isControl isWhitespace trim)

/-- `is_bidi_control`. -/
def isBidiControl (c : Char) : Bool :=
  c.val = 0x61C || c.val = 0x200E || c.val = 0x200F || (0x202A ≤ c.val && c.val ≤ 0x202E) ||
    (0x2066 ≤ c.val && c.val ≤ 0x2069)

/-- A character that would change how a text is shown. -/
def isControlOrBidi (c : Char) : Bool := isControl c || isBidiControl c

/-- The loop of `safe_text`, with the bytes it has pushed. -/
def safeChars (maxBytes : ℕ) : ℕ → List Char → List Char
  | _, [] => []
  | used, c :: s =>
    let c := if isControlOrBidi c then ' ' else c
    if maxBytes < used + c.utf8Size then [] else c :: safeChars maxBytes (used + c.utf8Size) s

/-- `safe_text`. -/
def safeText (value : String) (maxBytes : ℕ) : String :=
  if maxBytes = 0 then "" else String.ofList (trim (safeChars maxBytes 0 value.toList))

/-! ### Cleaning twice

What the first pass leaves has no control characters, fits and has no white space at its ends, so
the second pass finds nothing to do. -/

/-- The bytes of these characters. -/
def utf8Length (s : List Char) : ℕ := (s.map Char.utf8Size).sum

/-- What the loop leaves is clean and fits. -/
theorem safeChars_clean {maxBytes used : ℕ} (s : List Char) (h : used ≤ maxBytes) :
    (∀ c ∈ safeChars maxBytes used s, isControlOrBidi c = false) ∧
      used + utf8Length (safeChars maxBytes used s) ≤ maxBytes := by
  induction s generalizing used with
  | nil =>
    refine ⟨fun c hc => ?_, h⟩
    cases hc
  | cons c s ih =>
    rw [safeChars]
    generalize hd : (if isControlOrBidi c then ' ' else c) = d
    have hsafe : isControlOrBidi d = false := by
      rw [← hd]
      split
      · rfl
      · rename_i hc
        exact eq_false_of_ne_true hc
    split
    · refine ⟨fun c hc => ?_, h⟩
      cases hc
    · rename_i hfits
      obtain ⟨hclean, hlen⟩ := ih (not_lt.mp hfits)
      refine ⟨fun x hx => ?_, ?_⟩
      · rcases List.mem_cons.mp hx with rfl | hx
        · exact hsafe
        · exact hclean x hx
      · unfold utf8Length at hlen ⊢
        rw [List.map_cons, List.sum_cons]
        omega

/-- A clean text that fits is kept whole. -/
theorem safeChars_of_clean {maxBytes used : ℕ} {s : List Char}
    (hclean : ∀ c ∈ s, isControlOrBidi c = false)
    (hfits : used + utf8Length s ≤ maxBytes) : safeChars maxBytes used s = s := by
  induction s generalizing used with
  | nil => rfl
  | cons c s ih =>
    unfold utf8Length at hfits
    rw [List.map_cons, List.sum_cons] at hfits
    have hrest : used + c.utf8Size + utf8Length s ≤ maxBytes := by
      unfold utf8Length
      omega
    rw [safeChars, hclean c List.mem_cons_self, if_neg Bool.false_ne_true, if_neg (by omega),
      ih (fun d hd => hclean d (List.mem_cons_of_mem _ hd)) hrest]

/-- What is trimmed is a part of the text. -/
theorem trim_sublist (s : List Char) : (trim s).Sublist s := by
  unfold trim
  have hback : ((s.dropWhile isWhitespace).reverse.dropWhile isWhitespace).reverse.Sublist
      (s.dropWhile isWhitespace).reverse.reverse :=
    List.Sublist.reverse (List.dropWhile_sublist _)
  rw [List.reverse_reverse] at hback
  exact hback.trans (List.dropWhile_sublist _)

/-- A list that does not start with such an element has nothing to drop. -/
theorem dropWhile_reverse_dropWhile (p : Char → Bool) (s : List Char) :
    (((s.dropWhile p).reverse.dropWhile p).reverse).dropWhile p
      = ((s.dropWhile p).reverse.dropWhile p).reverse := by
  -- the second pass leaves the first character alone, unless it leaves nothing
  cases hs : s.dropWhile p with
  | nil => rfl
  | cons c rest =>
    have hc : p c = false := by
      have hhead := List.head_dropWhile_not p (l := s) (by rw [hs]; exact List.cons_ne_nil _ _)
      simpa [hs] using hhead
    have hdrop :
      ((c :: rest).reverse.dropWhile p).reverse = c :: (rest.reverse.dropWhile p).reverse := by
      rw [List.reverse_cons, List.dropWhile_append]
      split
      · rename_i hempty
        rw [List.isEmpty_iff.mp hempty, List.dropWhile_cons_of_neg
          (by rw [hc]; exact Bool.false_ne_true)]
        rfl
      · rw [List.reverse_append]
        rfl
    rw [hdrop, List.dropWhile_cons_of_neg (by rw [hc]; exact Bool.false_ne_true)]

theorem trim_trim (s : List Char) : trim (trim s) = trim s := by
  have hfront := dropWhile_reverse_dropWhile isWhitespace s
  show ((((s.dropWhile isWhitespace).reverse.dropWhile isWhitespace).reverse.dropWhile
    isWhitespace).reverse.dropWhile isWhitespace).reverse = _
  rw [hfront, List.reverse_reverse]
  have htwice : ((s.dropWhile isWhitespace).reverse.dropWhile isWhitespace).dropWhile isWhitespace
      = (s.dropWhile isWhitespace).reverse.dropWhile isWhitespace := List.dropWhile_idempotent _ _
  rw [htwice]
  rfl

theorem utf8Length_sublist {s t : List Char} (h : s.Sublist t) : utf8Length s ≤ utf8Length t := by
  unfold utf8Length
  exact (h.map Char.utf8Size).sum_le_sum fun _ _ => Nat.zero_le _

/-- A text is as `safe_text` leaves it. -/
def isSafe (value : String) (maxBytes : ℕ) : Bool := safeText value maxBytes = value

/-- **A cleaned text stays as it is.** -/
theorem safeText_safeText (value : String) (maxBytes : ℕ) :
    safeText (safeText value maxBytes) maxBytes = safeText value maxBytes := by
  unfold safeText
  split
  · rfl
  · obtain ⟨hclean, hlen⟩ := safeChars_clean value.toList (Nat.zero_le maxBytes)
    have hsub := trim_sublist (safeChars maxBytes 0 value.toList)
    have hlen' := utf8Length_sublist hsub
    rw [String.toList_ofList, safeChars_of_clean (fun c hc => hclean c (hsub.subset hc)) (by omega),
      trim_trim]

/-- A cleaned text has no control characters. -/
theorem isControlOrBidi_safeText {value : String} {maxBytes : ℕ}
    (h : safeText value maxBytes = value) :
    ∀ c ∈ value.toList, isControlOrBidi c = false := by
  intro c hc
  rw [← h] at hc
  unfold safeText at hc
  split at hc
  · cases hc
  · rw [String.toList_ofList] at hc
    exact (safeChars_clean value.toList (Nat.zero_le maxBytes)).1 c ((trim_sublist _).subset hc)

end Hmux
