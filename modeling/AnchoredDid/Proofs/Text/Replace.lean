import AnchoredDid.Text.Replace
import Mathlib.Data.List.Infix

/-!
# What a replacement leaves

Replacing changes a text at the occurrences of the pattern only: the pieces between them stay, and
none of them holds the pattern (`Text.exists_pieces`). The pattern can still be in the result. Where
neither the pattern nor the replacement begins with an end of the pattern, and the replacement does
not hold the pattern, there is one way for this: the replacement ends with a beginning of the
pattern and the text goes on with the rest of it (`Text.Separate.infix_replaceAll_iff`).
-/

namespace AnchoredDid.Text

variable {pattern replacement text rest ending : List Char} {c : Char}

/-! ## The steps of a replacement -/

theorem replaceFrom_append (lead text : List Char) :
    replaceFrom pattern replacement lead.length (lead ++ text) =
      replaceAll pattern replacement text := by
  induction lead with
  | nil => rfl
  | cons c lead ih => exact ih

theorem replaceAll_append (hpattern : pattern ≠ []) (text : List Char) :
    replaceAll pattern replacement (pattern ++ text) =
      replacement ++ replaceAll pattern replacement text := by
  cases pattern with
  | nil => exact absurd rfl hpattern
  | cons c lead =>
      have hfound : (c :: lead).isPrefixOf (c :: (lead ++ text)) = true :=
        List.isPrefixOf_iff_prefix.2 (List.prefix_append (c :: lead) text)
      rw [List.cons_append, replaceAll, replaceFrom, if_pos hfound, List.length_cons,
        Nat.add_sub_cancel, replaceFrom_append]

theorem replaceAll_cons (h : ¬ pattern <+: c :: rest) :
    replaceAll pattern replacement (c :: rest) = c :: replaceAll pattern replacement rest := by
  rw [replaceAll, replaceFrom, if_neg fun hfound => h (List.isPrefixOf_iff_prefix.1 hfound)]
  rfl

/-- A text is read from left to right: it is over, or the pattern comes next, or another character
does. -/
theorem induction_found {motive : List Char → Prop} (hpattern : pattern ≠ []) (nil : motive [])
    (found : ∀ rest, motive rest → motive (pattern ++ rest))
    (kept : ∀ c rest, ¬ pattern <+: c :: rest → motive rest → motive (c :: rest))
    (text : List Char) : motive text := by
  match text with
  | [] => exact nil
  | c :: tail =>
      by_cases hnext : pattern <+: c :: tail
      · obtain ⟨rest, hrest⟩ := hnext
        have hshorter : rest.length < tail.length + 1 := by
          have hpositive := List.length_pos_of_ne_nil hpattern
          have hlength := congrArg List.length hrest
          rw [List.length_append, List.length_cons] at hlength
          omega
        exact hrest ▸ found rest (induction_found hpattern nil found kept rest)
      · exact kept c tail hnext (induction_found hpattern nil found kept tail)
termination_by text.length

/-- The pieces between the occurrences of the pattern stay as they are. -/
theorem exists_pieces (hpattern : pattern ≠ []) (replacement text : List Char) :
    ∃ first others, (∀ piece ∈ first :: others, ¬ pattern <:+: piece) ∧
      text = pattern.intercalate (first :: others) ∧
      replaceAll pattern replacement text = replacement.intercalate (first :: others) := by
  induction text using induction_found hpattern with
  | nil => exact ⟨[], [], by simpa using hpattern, rfl, rfl⟩
  | found rest ih =>
      obtain ⟨first, others, hfree, hrest, hreplaced⟩ := ih
      refine ⟨[], first :: others, List.forall_mem_cons.2 ⟨by simpa using hpattern, hfree⟩, ?_, ?_⟩
      · rw [List.intercalate_cons_cons, ← hrest, List.nil_append]
      · rw [replaceAll_append hpattern, List.intercalate_cons_cons, ← hreplaced, List.nil_append]
  | kept c rest hnext ih =>
      obtain ⟨first, others, hfree, hrest, hreplaced⟩ := ih
      have hcons : ∀ separator : List Char, separator.intercalate ((c :: first) :: others) =
          c :: separator.intercalate (first :: others) := by
        intro separator
        cases others with
        | nil => rfl
        | cons second others => rw [List.intercalate_cons_cons, List.intercalate_cons_cons]; rfl
      obtain ⟨hfirst, hothers⟩ := List.forall_mem_cons.1 hfree
      refine ⟨c :: first, others, List.forall_mem_cons.2 ⟨?_, hothers⟩, ?_, ?_⟩
      · intro hheld
        rcases List.infix_cons_iff.1 hheld with hlead | hlater
        · have hpiece : first <+: pattern.intercalate (first :: others) := by
            cases others with
            | nil => rw [List.intercalate_singleton]
            | cons second others =>
                rw [List.intercalate_cons_cons, List.append_assoc]
                exact List.prefix_append _ _
          refine hnext (hlead.trans ?_)
          rw [hrest]
          exact (List.cons_prefix_cons.2 ⟨rfl, hpiece⟩)
        · exact hfirst hlater
      · rw [hcons, ← hrest]
      · rw [replaceAll_cons hnext, hcons, ← hreplaced]

/-! ## Where the pattern is found afterwards -/

/-- One of two texts begins with the other one. -/
def Meets (x y : List Char) : Prop := x <+: y ∨ y <+: x

instance (x y : List Char) : Decidable (Meets x y) := inferInstanceAs (Decidable (_ ∨ _))

theorem meets_of_prefix_append {x y z : List Char} (h : x <+: y ++ z) : Meets x y :=
  List.prefix_or_prefix_of_prefix h (List.prefix_append y z)

/-- A longer text meets only what its beginning meets. -/
theorem Meets.of_append {x y z : List Char} (h : Meets x (y ++ z)) : Meets x y := by
  rcases h with h | h
  · exact meets_of_prefix_append h
  · exact .inr ((List.prefix_append y z).trans h)

/-- No occurrence of the pattern overlaps another one, lies in a replacement, or begins before one
and ends in it or behind it. -/
structure Separate (pattern replacement : List Char) : Prop where
  nonempty : pattern ≠ []
  whole : ∀ ending, ending <:+ pattern → ending ≠ [] → Meets ending pattern → ending = pattern
  apart : ∀ ending, ending <:+ pattern → ending ≠ [] → ¬ Meets ending replacement
  absent : ¬ pattern <:+: replacement

namespace Separate

/-- Where a part of the pattern is found that ends it, the pattern itself is not. -/
theorem not_prefix (h : Separate pattern replacement) (hending : ending <:+ pattern)
    (hne : ending ≠ []) (hpart : ending ≠ pattern) (hstart : ending <+: text) :
    ¬ pattern <+: text :=
  fun hpattern => hpart
    (h.whole ending hending hne (List.prefix_or_prefix_of_prefix hstart hpattern))

/-- An end of the pattern begins the result where it begins the text and the pattern does not. -/
theorem prefix_replaceAll_iff (h : Separate pattern replacement) (hending : ending <:+ pattern)
    (hne : ending ≠ []) :
    ending <+: replaceAll pattern replacement text ↔ ending <+: text ∧ ¬ pattern <+: text := by
  induction text using induction_found h.nonempty generalizing ending with
  | nil =>
      have hnil : ¬ ending <+: [] := fun hnil => hne (List.prefix_nil.1 hnil)
      simp [hnil]
  | found rest ih =>
      rw [replaceAll_append h.nonempty]
      have hleft : ¬ ending <+: replacement ++ replaceAll pattern replacement rest :=
        fun hstart => h.apart ending hending hne (meets_of_prefix_append hstart)
      simp [hleft]
  | kept c rest hnext ih =>
      rw [replaceAll_cons hnext]
      cases ending with
      | nil => exact absurd rfl hne
      | cons e ending =>
          have hshorter : ending <:+ pattern := (List.suffix_cons e ending).trans hending
          have hpart : ending ≠ pattern := by
            rintro rfl
            have hlength := hending.length_le
            rw [List.length_cons] at hlength
            omega
          simp only [List.cons_prefix_cons, hnext, not_false_eq_true, and_true]
          refine and_congr_right fun _ => ?_
          by_cases hlast : ending = []
          · simp [hlast]
          · rw [ih hshorter hlast]
            exact and_iff_left_of_imp (h.not_prefix hshorter hlast hpart)

/-- No occurrence begins the result. -/
theorem not_prefix_replaceAll (h : Separate pattern replacement) :
    ¬ pattern <+: replaceAll pattern replacement text := by
  intro hstart
  obtain ⟨hfirst, hnot⟩ := (h.prefix_replaceAll_iff List.suffix_rfl h.nonempty).1 hstart
  exact hnot hfirst

/-- What begins with the pattern is found behind an occurrence, or goes on from it. -/
theorem infix_append_iff (h : Separate pattern replacement) (hne : ending ≠ []) :
    pattern ++ ending <:+: pattern ++ rest ↔ ending <+: rest ∨ pattern ++ ending <:+: rest := by
  constructor
  · intro hinfix
    rcases List.infix_append_iff.1 hinfix with hleft | hright
      | ⟨overlap, more, heq, hoverlap, hmore⟩
    · have hlength := hleft.length_le
      rw [List.length_append] at hlength
      exact absurd (List.length_eq_zero_iff.1 (by omega)) hne
    · exact .inr hright
    · by_cases hempty : overlap = []
      · rw [hempty, List.nil_append] at heq
        exact .inr (heq ▸ hmore.isInfix)
      · have hmeets : Meets overlap pattern :=
          List.prefix_or_prefix_of_prefix (heq ▸ List.prefix_append overlap more)
            (List.prefix_append pattern ending)
        rw [h.whole overlap hoverlap hempty hmeets, List.append_cancel_left_eq] at heq
        exact .inl (heq ▸ hmore)
  · rintro (hnext | hlater)
    · exact ((List.prefix_append_right_inj pattern).2 hnext).isInfix
    · exact hlater.trans (List.suffix_append _ _).isInfix

end Separate

/-- The replacement ends with a beginning of the pattern, and `ending` is the rest of it. -/
def CompletedBy (pattern replacement ending : List Char) : Prop :=
  ∃ lead, lead ≠ [] ∧ pattern = lead ++ ending ∧ lead <:+ replacement

namespace CompletedBy

theorem suffix (h : CompletedBy pattern replacement ending) : ending <:+ pattern := by
  obtain ⟨lead, -, heq, -⟩ := h
  exact heq ▸ List.suffix_append lead ending

theorem ne_pattern (h : CompletedBy pattern replacement ending) : ending ≠ pattern := by
  obtain ⟨lead, hne, heq, -⟩ := h
  intro hsame
  rw [hsame] at heq
  exact hne (List.self_eq_append_left.1 heq)

theorem ne_nil (h : CompletedBy pattern replacement ending)
    (separate : Separate pattern replacement) : ending ≠ [] := by
  obtain ⟨lead, -, heq, hlead⟩ := h
  rintro rfl
  rw [List.append_nil] at heq
  exact separate.absent (heq ▸ hlead.isInfix)

theorem prefix_replaceAll_iff (h : CompletedBy pattern replacement ending)
    (separate : Separate pattern replacement) :
    ending <+: replaceAll pattern replacement text ↔ ending <+: text := by
  rw [separate.prefix_replaceAll_iff h.suffix (h.ne_nil separate)]
  exact and_iff_left_of_imp (separate.not_prefix h.suffix (h.ne_nil separate) h.ne_pattern)

end CompletedBy

namespace Separate

/-- Behind a replacement, the pattern is completed or found later. -/
theorem infix_replacement_append_iff (h : Separate pattern replacement) :
    pattern <:+: replacement ++ replaceAll pattern replacement rest ↔
      (∃ ending, CompletedBy pattern replacement ending ∧ ending <+: rest) ∨
        pattern <:+: replaceAll pattern replacement rest := by
  rw [List.infix_append_iff, or_iff_right h.absent, or_comm]
  refine or_congr_left ⟨?_, ?_⟩
  · rintro ⟨lead, ending, heq, hlead, hnext⟩
    have hne : lead ≠ [] := by
      rintro rfl
      rw [← show pattern = ending from heq] at hnext
      exact h.not_prefix_replaceAll hnext
    have completed : CompletedBy pattern replacement ending := ⟨lead, hne, heq, hlead⟩
    exact ⟨ending, completed, (completed.prefix_replaceAll_iff h).1 hnext⟩
  · rintro ⟨ending, completed, hnext⟩
    obtain ⟨lead, -, heq, hlead⟩ := id completed
    exact ⟨lead, ending, heq, hlead, (completed.prefix_replaceAll_iff h).2 hnext⟩

/-- The pattern is in the result just if the replacement ends with a beginning of it and somewhere
the text goes on after an occurrence with the rest of it. -/
theorem infix_replaceAll_iff (h : Separate pattern replacement) :
    pattern <:+: replaceAll pattern replacement text ↔
      ∃ ending, CompletedBy pattern replacement ending ∧ pattern ++ ending <:+: text := by
  induction text using induction_found h.nonempty with
  | nil => simp [h.nonempty]
  | found rest ih =>
      have hfound : ∀ ending, CompletedBy pattern replacement ending →
          (pattern ++ ending <:+: pattern ++ rest ↔
            ending <+: rest ∨ pattern ++ ending <:+: rest) :=
        fun ending completed => h.infix_append_iff (completed.ne_nil h)
      rw [replaceAll_append h.nonempty, h.infix_replacement_append_iff]
      refine (or_congr_right ih).trans ?_
      rw [← exists_or]
      refine exists_congr fun ending => ?_
      rw [← and_or_left]
      exact and_congr_right fun completed => (hfound ending completed).symm
  | kept c rest hnext ih =>
      have hfirst : ¬ pattern <+: c :: replaceAll pattern replacement rest := by
        rw [← replaceAll_cons hnext]
        exact h.not_prefix_replaceAll
      have hbehind : ∀ ending, pattern ++ ending <:+: c :: rest ↔ pattern ++ ending <:+: rest :=
        fun ending => List.infix_cons_iff.trans
          (or_iff_right fun hstart => hnext ((List.prefix_append _ _).trans hstart))
      rw [replaceAll_cons hnext, List.infix_cons_iff, or_iff_right hfirst]
      simp only [hbehind]
      exact ih

end Separate

end AnchoredDid.Text
