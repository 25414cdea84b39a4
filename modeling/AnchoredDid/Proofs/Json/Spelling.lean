import Mathlib.Data.List.Forall2
import AnchoredDid.Proofs.Json.Ordered
import AnchoredDid.Proofs.Json.Text

/-!
# Texts of a value

A text spells a value if it is a text of it without blanks, whatever the order of the members and
however the numbers are written (`Json.Spells`). No such text is the beginning of another one,
numbers in front of further numerals apart (`Json.Spells.endTogether`). So the text of a container
determines those of its parts.
-/

namespace AnchoredDid.Json

/-! ## Where a text ends -/

/-- Wherever one of two texts ends, so does the other. -/
def EndTogether (text other : List Char) : Prop :=
  ∀ rest later, Closed rest → Closed later → text ++ rest = other ++ later →
    text = other ∧ rest = later

/-- What comes after a piece: the closing character, or a comma before each further piece. -/
def closing (close : Char) (rest : List Char) : List (List Char) → List Char
  | [] => close :: rest
  | piece :: more => ',' :: (piece ++ closing close rest more)

section Pieces

variable {close : Char} {rest later : List Char} {pieces others : List (List Char)}

theorem commaSeparated_cons_append (piece : List Char) :
    commaSeparated (piece :: pieces) ++ close :: rest = piece ++ closing close rest pieces := by
  induction pieces generalizing piece with
  | nil => rfl
  | cons next more ih =>
      rw [commaSeparated, List.append_assoc, List.cons_append, ih, closing]
      simp

theorem closed_closing (hclose : isNumeral close = false) : Closed (closing close rest pieces) := by
  cases pieces with
  | nil => exact closed_cons hclose
  | cons piece more => exact closed_cons rfl

theorem closing_inj (hclose : isNumeral close = false) (hcomma : close ≠ ',')
    (hends : ∀ p ∈ pieces, ∀ q ∈ others, EndTogether p q)
    (h : closing close rest pieces = closing close later others) :
    pieces = others ∧ rest = later := by
  induction pieces generalizing others with
  | nil =>
      cases others with
      | nil => exact ⟨rfl, (List.cons.inj h).2⟩
      | cons q others => exact absurd (List.cons.inj h).1 hcomma
  | cons p pieces ih =>
      cases others with
      | nil => exact absurd (List.cons.inj h).1.symm hcomma
      | cons q others =>
          obtain ⟨rfl, htails⟩ := hends p List.mem_cons_self q List.mem_cons_self _ _
            (closed_closing hclose) (closed_closing hclose) (List.cons.inj h).2
          obtain ⟨rfl, hrest⟩ := ih (fun p hp q hq => hends p (List.mem_cons_of_mem _ hp) q
            (List.mem_cons_of_mem _ hq)) htails
          exact ⟨rfl, hrest⟩

/-- A piece that is not empty and does not begin with the closing character. -/
def Opens (close : Char) (piece : List Char) : Prop :=
  ∃ c more, piece = c :: more ∧ c ≠ close

/-- Separated pieces are known from the text up to the character that closes them. -/
theorem commaSeparated_append_inj (hclose : isNumeral close = false) (hcomma : close ≠ ',')
    (hends : ∀ p ∈ pieces, ∀ q ∈ others, EndTogether p q) (hpieces : ∀ p ∈ pieces, Opens close p)
    (hothers : ∀ q ∈ others, Opens close q)
    (h : commaSeparated pieces ++ close :: rest = commaSeparated others ++ close :: later) :
    pieces = others ∧ rest = later := by
  cases pieces with
  | nil =>
      cases others with
      | nil => exact ⟨rfl, (List.cons.inj h).2⟩
      | cons q others =>
          obtain ⟨c, more, rfl, hc⟩ := hothers q List.mem_cons_self
          rw [commaSeparated_cons_append] at h
          exact absurd (List.cons.inj h).1.symm hc
  | cons p pieces =>
      rw [commaSeparated_cons_append] at h
      cases others with
      | nil =>
          obtain ⟨c, more, rfl, hc⟩ := hpieces p List.mem_cons_self
          exact absurd (List.cons.inj h).1 hc
      | cons q others =>
          rw [commaSeparated_cons_append] at h
          obtain ⟨rfl, htails⟩ := hends p List.mem_cons_self q List.mem_cons_self _ _
            (closed_closing hclose) (closed_closing hclose) h
          obtain ⟨rfl, hrest⟩ := closing_inj hclose hcomma (fun p hp q hq =>
            hends p (List.mem_cons_of_mem _ hp) q (List.mem_cons_of_mem _ hq)) htails
          exact ⟨rfl, hrest⟩

end Pieces

/-! ## Kinds of values -/

/-- Whether a value is a number of either kind. -/
def isNumber : Json → Bool
  | int _ | double _ => true
  | _ => false

/-- What holds of every integer and every double holds of every number. -/
@[elab_as_elim] theorem isNumber_cases {motive : Json → Prop} {x : Json} (h : x.isNumber = true)
    (int : ∀ n, motive (.int n)) (double : ∀ d, motive (.double d)) : motive x := by
  cases x with
  | int n => exact int n
  | double d => exact double d
  | _ => cases h

/-- What the first character of a text tells about the value. -/
inductive Kind where
  | null
  | bool (b : Bool)
  | number
  | string
  | array
  | object

def kind : Json → Kind
  | null => .null
  | bool b => .bool b
  | int _ | double _ => .number
  | string _ => .string
  | array _ => .array
  | object _ => .object

/-- The kind of value whose text begins with a character. -/
def kindAt (c : Char) : Kind :=
  if c = 'n' then .null
  else if c = 't' then .bool true
  else if c = 'f' then .bool false
  else if c = '"' then .string
  else if c = '[' then .array
  else if c = '\x7b' then .object
  else .number

theorem kindAt_numeral {c : Char} (h : isNumeral c = true) : kindAt c = .number := by
  have hother : ∀ d ∈ ['n', 't', 'f', '"', '[', '\x7b'], (!isNumeral d) = true :=
    List.all_eq_true.1 rfl
  have hne : ∀ d ∈ ['n', 't', 'f', '"', '[', '\x7b'], c ≠ d := by
    rintro d hd rfl
    have hc := hother c hd
    rw [h] at hc
    cases hc
  simp only [List.forall_mem_cons, List.not_mem_nil, false_implies, implies_true, and_true] at hne
  simp [kindAt, hne]

theorem isNumber_iff_kind {x : Json} : x.isNumber = true ↔ x.kind = .number := by
  cases x <;> simp [isNumber, kind]

/-! ## Texts -/

/-- A written member with the colon between its parts. -/
def colonJoined (m : List Char × List Char) : List Char :=
  m.1 ++ ':' :: m.2

/-- The text of a member between commas, from its name and the text of its value. -/
def memberText (p : String × List Char) : List Char :=
  colonJoined (quote p.1, p.2)

theorem memberText_injective : Function.Injective memberText := by
  intro p q h
  obtain ⟨hname, htext⟩ := quote_append_inj h
  exact Prod.ext hname (List.cons.inj htext).2

/-- A text of the value without blanks: members may be in any order, and numbers are only known to
be written with the characters of numbers. -/
inductive Spells : Json → List Char → Prop where
  | null : Spells .null "null".toList
  | bool (b : Bool) : Spells (.bool b) (if b then "true".toList else "false".toList)
  | number {x : Json} {text : List Char} (number : x.isNumber = true) (nonempty : text ≠ [])
      (numerals : ∀ c ∈ text, isNumeral c = true) : Spells x text
  | string (s : String) : Spells (.string s) (quote s)
  | array {items : List Json} {texts : List (List Char)} (each : List.Forall₂ Spells items texts) :
      Spells (.array items) ('[' :: commaSeparated texts ++ [']'])
  | object {members listed : List (String × Json)} {pieces : List (String × List Char)}
      (same : listed.Perm members) (each : List.Forall₂ (Members.Named Spells) listed pieces) :
      Spells (.object members) ('\x7b' :: commaSeparated (pieces.map memberText) ++ ['\x7d'])

section Containers

variable {texts others : List (List Char)} {pieces otherPieces : List (String × List Char)}
  {rest later : List Char}

/-- The text of an array is known from what begins with it, and so are those of its elements. -/
theorem array_append_inj (hends : ∀ t ∈ texts, ∀ o ∈ others, EndTogether t o)
    (htexts : ∀ t ∈ texts, Opens ']' t) (hothers : ∀ o ∈ others, Opens ']' o)
    (h : ('[' :: commaSeparated texts ++ [']']) ++ rest =
      ('[' :: commaSeparated others ++ [']']) ++ later) : texts = others ∧ rest = later := by
  simp only [List.cons_append, List.append_assoc, List.nil_append] at h
  exact commaSeparated_append_inj rfl (by decide) hends htexts hothers (List.cons.inj h).2

/-- A member ends where the text of its value does. -/
theorem endTogether_memberText {p q : String × List Char} (h : EndTogether p.2 q.2) :
    EndTogether (memberText p) (memberText q) := by
  intro rest later hrest hlater heq
  simp only [memberText, colonJoined, List.append_assoc, List.cons_append] at heq ⊢
  obtain ⟨hname, htexts⟩ := quote_append_inj heq
  obtain ⟨htext, hrests⟩ := h rest later hrest hlater (List.cons.inj htexts).2
  exact ⟨by rw [hname, htext], hrests⟩

/-- So is the text of an object, with the names and the texts of its members in their order. -/
theorem object_append_inj (hends : ∀ p ∈ pieces, ∀ q ∈ otherPieces, EndTogether p.2 q.2)
    (h : ('\x7b' :: commaSeparated (pieces.map memberText) ++ ['\x7d']) ++ rest =
      ('\x7b' :: commaSeparated (otherPieces.map memberText) ++ ['\x7d']) ++ later) :
    pieces = otherPieces ∧ rest = later := by
  have hopens : ∀ pieces : List (String × List Char), ∀ t ∈ pieces.map memberText, Opens '\x7d' t :=
    fun pieces => List.forall_mem_map.2 fun p _ => ⟨'"', _, rfl, by decide⟩
  simp only [List.cons_append, List.append_assoc, List.nil_append] at h
  refine (commaSeparated_append_inj rfl (by decide) ?_ (hopens _) (hopens _)
    (List.cons.inj h).2).imp_left fun hmap => List.map_injective_iff.2 memberText_injective hmap
  exact List.forall_mem_map.2 fun p hp => List.forall_mem_map.2 fun q hq =>
    endTogether_memberText (hends p hp q hq)

end Containers

/-- Whatever is related to the second of two lists element by element is related to an element. -/
theorem exists_mem_of_forall₂ {α β : Type} {R : α → β → Prop} {xs : List α} {ys : List β}
    (h : List.Forall₂ R xs ys) {y : β} (hy : y ∈ ys) : ∃ x ∈ xs, R x y := by
  induction h with
  | nil => cases hy
  | cons hfirst _ ih =>
      rcases List.mem_cons.1 hy with rfl | hlater
      · exact ⟨_, List.mem_cons_self, hfirst⟩
      · obtain ⟨x, hx, hxy⟩ := ih hlater
        exact ⟨x, List.mem_cons_of_mem _ hx, hxy⟩

namespace Spells

variable {x y : Json} {text other rest later : List Char}

theorem exists_kindAt (h : Spells x text) : ∃ c more, text = c :: more ∧ kindAt c = x.kind := by
  cases h with
  | null => exact ⟨'n', _, rfl, rfl⟩
  | bool b => cases b <;> exact ⟨_, _, rfl, rfl⟩
  | number number nonempty numerals =>
      obtain ⟨c, more, rfl⟩ := List.exists_cons_of_ne_nil nonempty
      rw [isNumber_iff_kind.1 number]
      exact ⟨c, more, rfl, kindAt_numeral (numerals c List.mem_cons_self)⟩
  | string s => exact ⟨'"', _, rfl, rfl⟩
  | array _ => exact ⟨'[', _, rfl, rfl⟩
  | object _ _ => exact ⟨'\x7b', _, rfl, rfl⟩

theorem kind_eq (hx : Spells x text) (hy : Spells y other) (h : text ++ rest = other ++ later) :
    x.kind = y.kind := by
  obtain ⟨c, more, rfl, hkind⟩ := hx.exists_kindAt
  obtain ⟨d, more', rfl, hkind'⟩ := hy.exists_kindAt
  rw [← hkind, ← hkind', (List.cons.inj h).1]

theorem numerals (h : Spells x text) (hnumber : x.isNumber = true) :
    ∀ c ∈ text, isNumeral c = true := by
  cases h with
  | number _ _ numerals => exact numerals
  | _ => cases hnumber

/-- No text of a value begins like the end of a container. -/
theorem opens (h : Spells x text) {close : Char} (hclose : isNumeral close = false)
    (hkind : kindAt close = .number) : Opens close text := by
  obtain ⟨c, more, rfl, hc⟩ := h.exists_kindAt
  refine ⟨c, more, rfl, ?_⟩
  rintro rfl
  have hnumeral := h.numerals (isNumber_iff_kind.2 (hc.symm.trans hkind)) c List.mem_cons_self
  rw [hclose] at hnumeral
  cases hnumeral

theorem not_isNumber_of_kind {kind : Kind} (hkind : x.kind = kind) (hother : kind ≠ .number) :
    x.isNumber = false :=
  Bool.eq_false_iff.2 fun hnumber => hother (hkind ▸ isNumber_iff_kind.1 hnumber)

theorem eq_of_kind_null (h : Spells x text) (hkind : x.kind = .null) : text = "null".toList := by
  cases h with
  | null => rfl
  | number number _ _ => cases number.symm.trans (not_isNumber_of_kind hkind nofun)
  | _ => cases hkind

theorem eq_of_kind_bool {b : Bool} (h : Spells x text) (hkind : x.kind = .bool b) :
    text = if b then "true".toList else "false".toList := by
  cases h with
  | bool b => cases hkind; rfl
  | number number _ _ => cases number.symm.trans (not_isNumber_of_kind hkind nofun)
  | _ => cases hkind

theorem exists_of_kind_string (h : Spells x text) (hkind : x.kind = .string) :
    ∃ s, x = .string s ∧ text = quote s := by
  cases h with
  | string s => exact ⟨s, rfl, rfl⟩
  | number number _ _ => cases number.symm.trans (not_isNumber_of_kind hkind nofun)
  | _ => cases hkind

theorem exists_of_kind_array (h : Spells x text) (hkind : x.kind = .array) :
    ∃ items texts, x = .array items ∧ text = '[' :: commaSeparated texts ++ [']'] ∧
      List.Forall₂ Spells items texts := by
  cases h with
  | array each => exact ⟨_, _, rfl, rfl, each⟩
  | number number _ _ => cases number.symm.trans (not_isNumber_of_kind hkind nofun)
  | _ => cases hkind

theorem exists_of_kind_object (h : Spells x text) (hkind : x.kind = .object) :
    ∃ members listed pieces, x = .object members ∧
      text = '\x7b' :: commaSeparated (pieces.map memberText) ++ ['\x7d'] ∧
      listed.Perm members ∧ List.Forall₂ (Members.Named Spells) listed pieces := by
  cases h with
  | object same each => exact ⟨_, _, _, rfl, rfl, same, each⟩
  | number number _ _ => cases number.symm.trans (not_isNumber_of_kind hkind nofun)
  | _ => cases hkind

theorem endTogether_of_isNumber (hx : Spells x text) (hy : Spells y other)
    (hnumber : x.isNumber = true) : EndTogether text other := by
  intro rest later hrest hlater h
  have hother : y.isNumber = true := by
    rw [isNumber_iff_kind, ← hx.kind_eq hy h, isNumber_iff_kind.1 hnumber]
  exact numeral_append_inj (hx.numerals hnumber) (hy.numerals hother) hrest hlater h

/-- Where a text of a value ends is known from the text itself. -/
theorem endTogether (hx : Spells x text) (hy : Spells y other) : EndTogether text other := by
  intro rest later hrest hlater h
  have hkind := hx.kind_eq hy h
  induction x using induction generalizing y text other rest later with
  | null =>
      obtain rfl := hx.eq_of_kind_null rfl
      obtain rfl := hy.eq_of_kind_null hkind.symm
      exact ⟨rfl, List.append_cancel_left h⟩
  | bool b =>
      obtain rfl := hx.eq_of_kind_bool rfl
      obtain rfl := hy.eq_of_kind_bool hkind.symm
      exact ⟨rfl, List.append_cancel_left h⟩
  | int n => exact hx.endTogether_of_isNumber hy rfl rest later hrest hlater h
  | double d => exact hx.endTogether_of_isNumber hy rfl rest later hrest hlater h
  | string s =>
      obtain ⟨s, -, rfl⟩ := hx.exists_of_kind_string rfl
      obtain ⟨t, -, rfl⟩ := hy.exists_of_kind_string hkind.symm
      obtain ⟨rfl, hrests⟩ := quote_append_inj h
      exact ⟨rfl, hrests⟩
  | array items ih =>
      obtain ⟨_, texts, hitems, rfl, each⟩ := hx.exists_of_kind_array rfl
      obtain ⟨_, others, -, rfl, each'⟩ := hy.exists_of_kind_array hkind.symm
      cases hitems
      refine (array_append_inj (fun t ht o ho => ?_) (fun t ht => ?_) (fun o ho => ?_)
        h).imp_left fun heq => by rw [heq]
      · obtain ⟨x, hx, htext⟩ := exists_mem_of_forall₂ each ht
        obtain ⟨y, -, hother⟩ := exists_mem_of_forall₂ each' ho
        intro rest later hrest hlater h
        exact ih x hx htext hother rest later hrest hlater h (htext.kind_eq hother h)
      · obtain ⟨x, -, htext⟩ := exists_mem_of_forall₂ each ht
        exact htext.opens rfl rfl
      · obtain ⟨y, -, hother⟩ := exists_mem_of_forall₂ each' ho
        exact hother.opens rfl rfl
  | object members ih =>
      obtain ⟨_, listed, pieces, hmembers, rfl, same, each⟩ := hx.exists_of_kind_object rfl
      obtain ⟨_, _, pieces', -, rfl, -, each'⟩ := hy.exists_of_kind_object hkind.symm
      cases hmembers
      refine (object_append_inj (fun p hp q hq => ?_) h).imp_left fun heq => by rw [heq]
      obtain ⟨m, hm, hnamed⟩ := exists_mem_of_forall₂ each hp
      obtain ⟨m', -, hnamed'⟩ := exists_mem_of_forall₂ each' hq
      have htext := (Members.named_iff.1 hnamed).2
      have hother := (Members.named_iff.1 hnamed').2
      intro rest later hrest hlater h
      exact ih m (same.mem_iff.1 hm) htext hother rest later hrest hlater h
        (htext.kind_eq hother h)

end Spells

end AnchoredDid.Json
