import Mathlib.Data.List.Perm.Basic
import AnchoredDid.Proofs.Json.Spelling

/-!
# Canonical texts

The canonical text of a value spells it (`Json.spells_canonicalText`), with the members in the order
of their written names. So the canonical text of a container determines those of its parts, and the
written members of an object.
-/

namespace AnchoredDid.Json

/-! ## The text of containers -/

theorem canonicalItems_eq_map (items : List Json) :
    canonicalItems items = items.map canonicalText := by
  induction items with
  | nil => rfl
  | cons x rest ih => rw [canonicalItems, ih, List.map_cons]

theorem insertWritten_perm (name value : List Char) (written : List (List Char × List Char)) :
    (insertWritten name value written).Perm ((name, value) :: written) := by
  induction written with
  | nil => rfl
  | cons m rest ih =>
      rw [insertWritten]
      split
      · exact (ih.cons m).trans (.swap ..)
      · rfl

/-- A member as it is written, in its two parts. -/
def written (m : String × Json) : List Char × List Char :=
  (quote m.1, canonicalText m.2)

/-- The written members are those of the object in another order. -/
theorem canonicalMembers_perm (members : List (String × Json)) :
    (canonicalMembers members).Perm (members.map written) := by
  induction members with
  | nil => rfl
  | cons m rest ih => exact (insertWritten_perm _ _ _).trans (ih.cons _)

/-- They are the object's members in some order, each as it is written. -/
theorem exists_listed (members : List (String × Json)) :
    ∃ listed, List.Perm listed members ∧ canonicalMembers members = listed.map written := by
  have hinsert :
      ∀ (m : String × Json) (listed : List (String × Json)), ∃ longer : List (String × Json),
      longer.Perm (m :: listed) ∧
        insertWritten (quote m.1) (canonicalText m.2) (listed.map written) =
          longer.map written := by
    intro m listed
    induction listed with
    | nil => exact ⟨[m], .refl _, rfl⟩
    | cons n rest ih =>
        obtain ⟨longer, hperm, hwritten⟩ := ih
        rw [List.map_cons, written, insertWritten]
        split
        · exact ⟨n :: longer, (hperm.cons n).trans (.swap ..), congrArg (written n :: ·) hwritten⟩
        · exact ⟨m :: n :: rest, .refl _, rfl⟩
  induction members with
  | nil => exact ⟨[], .nil, rfl⟩
  | cons m rest ih =>
      obtain ⟨listed, hperm, hwritten⟩ := ih
      obtain ⟨longer, hlonger, hall⟩ := hinsert m listed
      exact ⟨longer, hlonger.trans (hperm.cons m), by rw [canonicalMembers, hwritten, hall]⟩

theorem canonicalText_array (items : List Json) : canonicalText (.array items) =
    '[' :: commaSeparated (items.map canonicalText) ++ [']'] := by
  rw [canonicalText, canonicalItems_eq_map]

theorem canonicalText_object (members : List (String × Json)) : canonicalText (.object members) =
    '\x7b' :: commaSeparated ((canonicalMembers members).map colonJoined) ++ ['\x7d'] := by
  rw [canonicalText]
  rfl

/-- A member with its value as it is written. -/
def texted (m : String × Json) : String × List Char :=
  (m.1, m.2.canonicalText)

theorem canonicalText_object_of_listed {members listed : List (String × Json)}
    (h : canonicalMembers members = listed.map written) : canonicalText (.object members) =
      '\x7b' :: commaSeparated ((listed.map texted).map memberText) ++ ['\x7d'] := by
  rw [canonicalText_object, h, List.map_map, List.map_map]
  rfl

/-- The text of an object lists its members in some order. -/
theorem exists_texted (members : List (String × Json)) :
    ∃ listed, List.Perm listed members ∧ canonicalText (.object members) =
      '\x7b' :: commaSeparated ((listed.map texted).map memberText) ++ ['\x7d'] := by
  obtain ⟨listed, hperm, hwritten⟩ := exists_listed members
  exact ⟨listed, hperm, canonicalText_object_of_listed hwritten⟩

/-! ## The texts of values -/

theorem spells_canonicalText (x : Json) : Spells x x.canonicalText := by
  induction x using induction with
  | null => exact .null
  | bool b => cases b <;> exact .bool _
  | int n => exact .number rfl (integerText_ne_nil n) (isNumeral_integerText n)
  | double d => exact .number rfl (text_ne_nil d) (isNumeral_text d)
  | string s => exact .string s
  | array items ih =>
      rw [canonicalText_array]
      exact .array (List.forall₂_map_right_iff.2 (List.forall₂_same.2 ih))
  | object members ih =>
      obtain ⟨listed, hperm, htext⟩ := exists_texted members
      rw [htext]
      refine .object hperm (List.forall₂_map_right_iff.2 (List.forall₂_same.2 fun m hm => ?_))
      exact .intro m.1 (ih m (hperm.mem_iff.1 hm))

/-- Where a canonical text ends is known from the text itself. -/
theorem canonicalText_append_inj (x y : Json) : EndTogether x.canonicalText y.canonicalText :=
  (spells_canonicalText x).endTogether (spells_canonicalText y)

theorem opens_canonicalText {close : Char} (hclose : isNumeral close = false)
    (hkind : kindAt close = .number) (x : Json) : Opens close x.canonicalText :=
  (spells_canonicalText x).opens hclose hkind

theorem kind_eq_of_canonicalText_eq {x y : Json} (h : x.canonicalText = y.canonicalText) :
    x.kind = y.kind :=
  (spells_canonicalText x).kind_eq (spells_canonicalText y) (congrArg (· ++ []) h)

/-- The canonical text of an array determines those of its elements. -/
theorem map_canonicalText_eq {xs ys : List Json}
    (h : canonicalText (.array xs) = canonicalText (.array ys)) :
    xs.map canonicalText = ys.map canonicalText := by
  rw [canonicalText_array, canonicalText_array] at h
  have hopens : ∀ items : List Json, ∀ t ∈ items.map canonicalText, Opens ']' t :=
    fun items => List.forall_mem_map.2 fun x _ => opens_canonicalText rfl rfl x
  refine (array_append_inj ?_ (hopens xs) (hopens ys) (congrArg (· ++ []) h)).1
  exact List.forall_mem_map.2 fun x _ => List.forall_mem_map.2 fun y _ =>
    canonicalText_append_inj x y

/-- The canonical text of an object determines the names and the texts of its members. -/
theorem map_texted_perm {ms ns : List (String × Json)}
    (h : canonicalText (.object ms) = canonicalText (.object ns)) :
    (ms.map texted).Perm (ns.map texted) := by
  obtain ⟨listed, hms, htext⟩ := exists_texted ms
  obtain ⟨listed', hns, htext'⟩ := exists_texted ns
  rw [htext, htext'] at h
  have hends : ∀ p ∈ listed.map texted, ∀ q ∈ listed'.map texted, EndTogether p.2 q.2 :=
    List.forall_mem_map.2 fun m _ => List.forall_mem_map.2 fun n _ =>
      canonicalText_append_inj m.2 n.2
  have hpieces := (object_append_inj hends (congrArg (· ++ []) h)).1
  exact (hms.map texted).symm.trans ((List.Perm.of_eq hpieces).trans (hns.map texted))

end AnchoredDid.Json
