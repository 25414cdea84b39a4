/-!
# Searching and replacing in text

Texts are read as lists of characters. Replacement goes from left to right and never looks again at
what it has put in, so an inserted text cannot complete a further match.
-/

namespace AnchoredDid.Text

/-- What follows `lead` in `text`, if `text` starts with it. -/
def after? : (lead text : List Char) → Option (List Char)
  | [], text => some text
  | _ :: _, [] => none
  | l :: lead, c :: text => if l = c then after? lead text else none

@[simp] theorem after?_nil (text : List Char) : after? [] text = some text := rfl

theorem after?_eq_some_iff {lead text rest : List Char} :
    after? lead text = some rest ↔ text = lead ++ rest := by
  induction lead generalizing text with
  | nil => simp [eq_comm]
  | cons l lead ih =>
      cases text with
      | nil => simp [after?]
      | cons c text =>
          by_cases h : l = c
          · simp [after?, h, ih]
          · simp [after?, h, Ne.symm h]

/-- The reading that `replaceAll` makes with `skip` characters of the last match still to pass. -/
def replaceFrom (pattern replacement : List Char) : (skip : Nat) → List Char → List Char
  | _, [] => []
  | skip + 1, _ :: rest => replaceFrom pattern replacement skip rest
  | 0, c :: rest =>
    if pattern.isPrefixOf (c :: rest) then
      replacement ++ replaceFrom pattern replacement (pattern.length - 1) rest
    else
      c :: replaceFrom pattern replacement 0 rest

/-- Each occurrence of the nonempty `pattern`, from left to right, becomes `replacement`. -/
def replaceAll (pattern replacement text : List Char) : List Char :=
  replaceFrom pattern replacement 0 text

@[simp] theorem replaceAll_nil (pattern replacement : List Char) :
    replaceAll pattern replacement [] = [] := rfl

/-- The parts of a text between separators; there is always one more part than separators. -/
def splitAll (separator : Char) : List Char → List (List Char)
  | [] => [[]]
  | c :: rest =>
    if c = separator then [] :: splitAll separator rest
    else
      match splitAll separator rest with
      | [] => [[c]]
      | part :: parts => (c :: part) :: parts

/-- The text up to the first `separator`, or all of it. -/
def upTo (separator : Char) (text : List Char) : List Char :=
  text.takeWhile (· ≠ separator)

end AnchoredDid.Text
