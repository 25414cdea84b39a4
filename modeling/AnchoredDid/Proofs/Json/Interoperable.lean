import AnchoredDid.Proofs.Json.Alike
import AnchoredDid.Proofs.Json.Names
import AnchoredDid.Proofs.Number.Ecmascript

/-!
# Canonical texts of RFC 8785

RFC 8785 lists the members of an object in the order of the UTF-16 code units of their names, and
writes a number as ECMAScript prints the double nearest to it. A value has one such text
(`Json.Conforms.unique`). The canonical text differs from it in two things: its members are in the
order of their written names, quotation marks and escapes included, and its integers keep all their
digits. It is the text of RFC 8785 exactly for the values where neither makes a difference
(`Json.conforms_canonicalText_iff`).
-/

namespace AnchoredDid

namespace Json

/-! ## The text of RFC 8785 -/

/-- The text is that of the value according to RFC 8785. -/
inductive Conforms : Json → List Char → Prop where
  | null : Conforms .null "null".toList
  | bool (b : Bool) : Conforms (.bool b) (if b then "true".toList else "false".toList)
  | int {n : Int} {x : Double} {text : List Char} (nearest : Double.Nearest n x)
      (prints : x.Prints text) : Conforms (.int n) text
  | double {x : Double} {text : List Char} (prints : x.Prints text) : Conforms (.double x) text
  | string (s : String) : Conforms (.string s) (quote s)
  | array {items : List Json} {texts : List (List Char)}
    (each : List.Forall₂ Conforms items texts) :
      Conforms (.array items) ('[' :: commaSeparated texts ++ [']'])
  | object {members listed : List (String × Json)} {pieces : List (String × List Char)}
      (same : listed.Perm members) (sorted : listed.Pairwise fun m n => utf16 m.1 < utf16 n.1)
      (each : List.Forall₂ (Members.Named Conforms) listed pieces) :
      Conforms (.object members) ('\x7b' :: commaSeparated (pieces.map memberText) ++ ['\x7d'])

/-- Every double in the value is a binary64 number. -/
inductive Binary64 : Json → Prop where
  | null : Binary64 .null
  | bool (b : Bool) : Binary64 (.bool b)
  | int (n : Int) : Binary64 (.int n)
  | double {x : Double} (representable : x.Representable) : Binary64 (.double x)
  | string (s : String) : Binary64 (.string s)
  | array {items : List Json} (each : ∀ x ∈ items, Binary64 x) : Binary64 (.array items)
  | object {members : List (String × Json)} (each : ∀ m ∈ members, Binary64 m.2) :
      Binary64 (.object members)

namespace Binary64

theorem of_mem_array {items : List Json} (h : Binary64 (.array items)) :
    ∀ x ∈ items, Binary64 x := by
  cases h with
  | array each => exact each

theorem of_mem_object {members : List (String × Json)} (h : Binary64 (.object members)) :
    ∀ m ∈ members, Binary64 m.2 := by
  cases h with
  | object each => exact each

end Binary64

/-- Whatever a text spells has binary64 numbers for doubles. -/
theorem binary64_of_read? {text : String} {value : Json} (h : read? text = some value) :
    value.Binary64 := by
  have holds : HoldsOfRead Binary64 :=
    { null := .null
      bool := .bool
      int := .int
      double := fun hdecimal => .double (Double.nearest_of_ofDecimal? hdecimal).representable
      string := .string
      array := .array
      object := fun hpairs => .object fun m hm => hpairs m (Members.mem_of_mem_ofList hm) }
  exact holds.of_read? h

/-- The digits of every integer are what ECMAScript prints for the nearest double, and in every
object the order of the written names is the order of the UTF-16 code units of the names. -/
inductive Portable : Json → Prop where
  | null : Portable .null
  | bool (b : Bool) : Portable (.bool b)
  | int {n : Int} {x : Double} (nearest : Double.Nearest n x) (prints : x.Prints (integerText n)) :
      Portable (.int n)
  | double (x : Double) : Portable (.double x)
  | string (s : String) : Portable (.string s)
  | array {items : List Json} (each : ∀ x ∈ items, Portable x) : Portable (.array items)
  | object {members : List (String × Json)}
      (agree : ∀ m ∈ members, ∀ n ∈ members, quote m.1 < quote n.1 → utf16 m.1 < utf16 n.1)
      (each : ∀ m ∈ members, Portable m.2) : Portable (.object members)

/-! ## One text -/

/-- Lists that are related to one list are equal if each element of it is related to one thing. -/
theorem forall₂_unique {α β : Type} {R : α → β → Prop} {xs : List α} {ys zs : List β}
    (each : ∀ x ∈ xs, ∀ y z, R x y → R x z → y = z) (hy : List.Forall₂ R xs ys)
    (hz : List.Forall₂ R xs zs) : ys = zs := by
  induction hy generalizing zs with
  | nil => exact (List.forall₂_nil_left_iff.1 hz).symm
  | cons hfirst _ ih =>
      obtain ⟨hone, hrest⟩ := List.forall_mem_cons.1 each
      cases hz with
      | cons hfirst' hlater => rw [hone _ _ hfirst hfirst', ih hrest hlater]

/-- What follows from a relation for the elements of two lists follows for the lists. -/
theorem forall₂_imp_of_mem {α β : Type} {R S : α → β → Prop} {xs : List α} {ys : List β}
    (each : ∀ x ∈ xs, ∀ y ∈ ys, R x y → S x y) (h : List.Forall₂ R xs ys) :
    List.Forall₂ S xs ys := by
  induction h with
  | nil => exact .nil
  | cons hfirst _ ih =>
      refine .cons (each _ List.mem_cons_self _ List.mem_cons_self hfirst) (ih fun x hx y hy => ?_)
      exact each x (List.mem_cons_of_mem _ hx) y (List.mem_cons_of_mem _ hy)

namespace Conforms

variable {v : Json} {text other : List Char} {items : List Json} {members : List (String × Json)}

theorem exists_of_array (h : Conforms (.array items) text) :
    ∃ texts, text = '[' :: commaSeparated texts ++ [']'] ∧ List.Forall₂ Conforms items texts := by
  cases h with
  | array each => exact ⟨_, rfl, each⟩

theorem exists_of_object (h : Conforms (.object members) text) :
    ∃ listed pieces, text = '\x7b' :: commaSeparated (pieces.map memberText) ++ ['\x7d'] ∧
      listed.Perm members ∧ listed.Pairwise (fun m n => utf16 m.1 < utf16 n.1) ∧
      List.Forall₂ (Members.Named Conforms) listed pieces := by
  cases h with
  | object same sorted each => exact ⟨_, _, rfl, same, sorted, each⟩

/-- No value has two texts according to RFC 8785. -/
theorem unique (h : Conforms v text) (h' : Conforms v other) : text = other := by
  induction v using induction generalizing text other with
  | int n =>
      cases h with
      | int nearest prints =>
          cases h' with
          | int nearest' prints' =>
              exact prints.eq_of_value_eq nearest.representable nearest'.representable
                (nearest.value_eq nearest') prints'
  | double x =>
      cases h with
      | double prints =>
          cases h' with
          | double prints' => exact prints.unique prints'
  | array items ih =>
      obtain ⟨texts, rfl, each⟩ := h.exists_of_array
      obtain ⟨others, rfl, each'⟩ := h'.exists_of_array
      rw [forall₂_unique (fun x hx _ _ => ih x hx) each each']
  | object members ih =>
      obtain ⟨listed, pieces, rfl, same, sorted, each⟩ := h.exists_of_object
      obtain ⟨listed', pieces', rfl, same', sorted', each'⟩ := h'.exists_of_object
      obtain rfl : listed = listed' := by
        refine List.Perm.eq_of_pairwise ?_ sorted sorted' (same.trans same'.symm)
        exact fun p q _ _ hpq hqp => absurd (lt_trans hpq hqp) (lt_irrefl _)
      have hpieces : ∀ m ∈ listed, ∀ p q, Members.Named Conforms m p → Members.Named Conforms m q →
          p = q := by
        rintro m hm _ _ ⟨name, htext⟩ ⟨_, htext'⟩
        rw [ih _ (same.mem_iff.1 hm) htext htext']
      rw [forall₂_unique hpieces each each']
  | _ => cases h; cases h'; rfl

theorem spells (h : Conforms v text) : Spells v text := by
  induction v using induction generalizing text with
  | null => cases h; exact .null
  | bool b => cases h; exact .bool b
  | int n =>
      cases h with
      | int _ prints => exact .number rfl prints.numerals.1 prints.numerals.2
  | double x =>
      cases h with
      | double prints => exact .number rfl prints.numerals.1 prints.numerals.2
  | string s => cases h; exact .string s
  | array items ih =>
      obtain ⟨texts, rfl, each⟩ := h.exists_of_array
      exact .array (forall₂_imp_of_mem (fun x hx _ _ => ih x hx) each)
  | object members ih =>
      obtain ⟨listed, pieces, rfl, same, -, each⟩ := h.exists_of_object
      refine .object same (forall₂_imp_of_mem (fun m hm p _ hnamed => ?_) each)
      obtain ⟨hname, htext⟩ := Members.named_iff.1 hnamed
      exact Members.named_iff.2 ⟨hname, ih m (same.mem_iff.1 hm) htext⟩

end Conforms

/-! ## The order of the written members -/

theorem pairwise_insertWritten {name value : List Char} {written : List (List Char × List Char)}
    (sorted : written.Pairwise fun p q => p.1 < q.1) (hother : ∀ p ∈ written, p.1 ≠ name) :
    (insertWritten name value written).Pairwise fun p q => p.1 < q.1 := by
  induction written with
  | nil => exact List.pairwise_singleton _ _
  | cons p rest ih =>
      obtain ⟨hfirst, hrest⟩ := List.pairwise_cons.1 sorted
      obtain ⟨hne, hother⟩ := List.forall_mem_cons.1 hother
      rw [insertWritten]
      split
      · next hlt =>
        refine List.pairwise_cons.2 ⟨fun q hq => ?_, ih hrest hother⟩
        rcases List.mem_cons.1 ((insertWritten_perm _ _ _).mem_iff.1 hq) with rfl | hq
        · exact hlt
        · exact hfirst q hq
      · next hnot =>
        have hlt : name < p.1 := by
          rcases Std.lt_trichotomy name p.1 with hlt | heq | hgt
          · exact hlt
          · exact absurd heq.symm hne
          · exact absurd hgt hnot
        refine List.pairwise_cons.2 ⟨List.forall_mem_cons.2 ⟨hlt, fun q hq => ?_⟩, sorted⟩
        exact Std.lt_trans hlt (hfirst q hq)

/-- The members are listed in the order of their written names. -/
theorem pairwise_canonicalMembers {members : List (String × Json)}
    (distinct : members.Pairwise fun m n => m.1 ≠ n.1) :
    (canonicalMembers members).Pairwise fun p q => p.1 < q.1 := by
  induction members with
  | nil => exact .nil
  | cons m rest ih =>
      obtain ⟨hfirst, hrest⟩ := List.pairwise_cons.1 distinct
      refine pairwise_insertWritten (ih hrest) fun p hp hname => ?_
      obtain ⟨n, hn, rfl⟩ := List.mem_map.1 ((canonicalMembers_perm rest).mem_iff.1 hp)
      exact hfirst n hn (quote_injective hname).symm

/-! ## Where the canonical text conforms -/

/-- The elements of an array whose canonical text conforms have texts that do. -/
theorem each_of_conforms {items : List Json}
    (h : Conforms (.array items) (canonicalText (.array items))) :
    ∀ x ∈ items, Conforms x x.canonicalText := by
  obtain ⟨texts, htext, each⟩ := h.exists_of_array
  rw [canonicalText_array] at htext
  have hspells : ∀ t ∈ texts, ∃ x, Spells x t := fun t ht =>
    (exists_mem_of_forall₂ each ht).imp fun _ hx => hx.2.spells
  have hspells' : ∀ t ∈ items.map canonicalText, ∃ x, Spells x t :=
    List.forall_mem_map.2 fun x _ => ⟨x, spells_canonicalText x⟩
  have hopens : ∀ t : List Char, (∃ x, Spells x t) → Opens ']' t := fun _ hx =>
    hx.elim fun _ hspells => hspells.opens rfl rfl
  obtain ⟨rfl, -⟩ := array_append_inj
    (fun t ht o ho => (hspells t ht).elim fun _ hx => (hspells' o ho).elim fun _ hy =>
      hx.endTogether hy)
    (fun t ht => hopens t (hspells t ht)) (fun o ho => hopens o (hspells' o ho))
    (congrArg (· ++ []) htext.symm)
  exact List.forall₂_same.1 (List.forall₂_map_right_iff.1 each)

section Objects

variable {members : List (String × Json)}

theorem eq_of_name_eq (sorted : Members.Sorted members) {m n : String × Json} (hm : m ∈ members)
    (hn : n ∈ members) (h : m.1 = n.1) : m = n := by
  have hfind := Members.find?_of_mem sorted hm
  rw [h, Members.find?_of_mem sorted hn] at hfind
  exact Prod.ext h (Option.some.inj hfind).symm

theorem distinct_of_sorted (sorted : Members.Sorted members) :
    members.Pairwise fun m n => m.1 ≠ n.1 :=
  sorted.imp fun {_ n} hlt heq => absurd (heq ▸ hlt) (String.lt_irrefl n.1)

/-- A list in one order is in another order too if the pairs that are ordered by the one are by the
other. -/
theorem imp_of_pairwise {α : Type} {R S : α → α → Prop} {xs : List α}
    (asymmetric : ∀ x y, R x y → ¬R y x) (h : xs.Pairwise fun x y => R x y ∧ S x y) :
    ∀ x ∈ xs, ∀ y ∈ xs, R x y → S x y := by
  induction h with
  | nil => exact nofun
  | cons hfirst _ ih =>
      intro x hx y hy hxy
      rcases List.mem_cons.1 hx with rfl | hxrest <;> rcases List.mem_cons.1 hy with rfl | hyrest
      · exact absurd hxy (asymmetric _ _ hxy)
      · exact (hfirst y hyrest).2
      · exact absurd (hfirst x hxrest).1 (asymmetric _ _ hxy)
      · exact ih x hxrest y hyrest hxy

/-- The text lists the members in an order that is that of their written names. -/
theorem exists_sorted (sorted : Members.Sorted members) :
    ∃ listed, List.Perm listed members ∧ listed.Pairwise (fun m n => quote m.1 < quote n.1) ∧
      canonicalText (.object members) =
        '\x7b' :: commaSeparated ((listed.map texted).map memberText) ++ ['\x7d'] := by
  obtain ⟨listed, hperm, hwritten⟩ := exists_listed members
  have hpairwise := pairwise_canonicalMembers (distinct_of_sorted sorted)
  rw [hwritten, List.pairwise_map] at hpairwise
  exact ⟨listed, hperm, hpairwise, canonicalText_object_of_listed hwritten⟩

/-- An object whose canonical text conforms lists its members in both orders at once. -/
theorem agree_of_conforms (sorted : Members.Sorted members)
    (h : Conforms (.object members) (canonicalText (.object members))) :
    (∀ m ∈ members, ∀ n ∈ members, quote m.1 < quote n.1 → utf16 m.1 < utf16 n.1) ∧
      ∀ m ∈ members, Conforms m.2 m.2.canonicalText := by
  obtain ⟨listed, pieces, htext, same, hunits, each⟩ := h.exists_of_object
  obtain ⟨listed', same', hquotes, htext'⟩ := exists_sorted sorted
  have hends : ∀ p ∈ pieces, ∀ q ∈ listed'.map texted, EndTogether p.2 q.2 := by
    intro p hp q hq
    obtain ⟨m, -, hnamed⟩ := exists_mem_of_forall₂ each hp
    obtain ⟨n, -, rfl⟩ := List.mem_map.1 hq
    exact (Members.named_iff.1 hnamed).2.spells.endTogether (spells_canonicalText n.2)
  obtain ⟨rfl, -⟩ := object_append_inj hends (congrArg (· ++ []) (htext.symm.trans htext'))
  -- The same names in the same places are the same members, as no name occurs twice.
  have hnamed := List.forall₂_map_right_iff.1 each
  have hsame : ∀ m ∈ listed, ∀ n ∈ listed', Members.Named Conforms m (texted n) → m = n :=
    fun m hm n hn hmn => eq_of_name_eq sorted (same.mem_iff.1 hm) (same'.mem_iff.1 hn)
      (Members.named_iff.1 hmn).1
  have hequal : List.Forall₂ Eq listed listed' := forall₂_imp_of_mem hsame hnamed
  rw [List.forall₂_eq_eq_eq] at hequal
  subst hequal
  constructor
  · intro m hm n hn
    exact imp_of_pairwise (fun _ _ hlt hgt => List.lt_irrefl _ (List.lt_trans hlt hgt))
      (hquotes.and hunits) m (same.mem_iff.2 hm) n (same.mem_iff.2 hn)
  · intro m hm
    exact (Members.named_iff.1 (List.forall₂_same.1 hnamed m (same.mem_iff.2 hm))).2

/-- An object whose members are in both orders has a canonical text that conforms. -/
theorem conforms_of_agree (sorted : Members.Sorted members)
    (agree : ∀ m ∈ members, ∀ n ∈ members, quote m.1 < quote n.1 → utf16 m.1 < utf16 n.1)
    (each : ∀ m ∈ members, Conforms m.2 m.2.canonicalText) :
    Conforms (.object members) (canonicalText (.object members)) := by
  obtain ⟨listed, same, hquotes, htext⟩ := exists_sorted sorted
  rw [htext]
  refine .object same (hquotes.imp_of_mem fun hm hn => ?_)
    (List.forall₂_map_right_iff.2 (List.forall₂_same.2 fun m hm => ?_))
  · exact agree _ (same.mem_iff.1 hm) _ (same.mem_iff.1 hn)
  · exact .intro m.1 (each m (same.mem_iff.1 hm))

end Objects

theorem canonicalText_bool (b : Bool) :
    canonicalText (.bool b) = if b then "true".toList else "false".toList := by
  cases b <;> rfl

/-- The canonical text is the text of RFC 8785 for the portable values and for no others. -/
theorem conforms_canonicalText_iff {v : Json} (ordered : v.Ordered) (binary64 : v.Binary64) :
    Conforms v v.canonicalText ↔ Portable v := by
  induction v using induction with
  | null => exact iff_of_true .null .null
  | bool b => exact iff_of_true (canonicalText_bool b ▸ .bool b) (.bool b)
  | int n =>
      constructor
      · intro h
        cases h with
        | int nearest prints => exact .int nearest prints
      · intro h
        cases h with
        | int nearest prints => exact .int nearest prints
  | double x =>
      cases binary64 with
      | double representable =>
          exact iff_of_true (.double (Double.prints_text representable)) (.double x)
  | string s => exact iff_of_true (.string s) (.string s)
  | array items ih =>
      have hitems := fun x hx => ih x hx (ordered.of_mem_array x hx) (binary64.of_mem_array x hx)
      constructor
      · intro h
        exact .array fun x hx => (hitems x hx).1 (each_of_conforms h x hx)
      · intro h
        cases h with
        | array each =>
            rw [canonicalText_array]
            exact .array (List.forall₂_map_right_iff.2 (List.forall₂_same.2 fun x hx =>
              (hitems x hx).2 (each x hx)))
  | object members ih =>
      have hmembers := fun m hm =>
        ih m hm (ordered.of_mem_object m hm) (binary64.of_mem_object m hm)
      constructor
      · intro h
        obtain ⟨agree, each⟩ := agree_of_conforms ordered.sorted h
        exact .object agree fun m hm => (hmembers m hm).1 (each m hm)
      · intro h
        cases h with
        | object agree each =>
            exact conforms_of_agree ordered.sorted agree fun m hm => (hmembers m hm).2 (each m hm)

/-! ## Plain values -/

/-- Integers have less than fifty-four bits, and names are plain. -/
inductive Plain : Json → Prop where
  | null : Plain .null
  | bool (b : Bool) : Plain (.bool b)
  | int {n : Int} (small : n.natAbs < 2 ^ 53) : Plain (.int n)
  | double (x : Double) : Plain (.double x)
  | string (s : String) : Plain (.string s)
  | array {items : List Json} (each : ∀ x ∈ items, Plain x) : Plain (.array items)
  | object {members : List (String × Json)} (names : ∀ m ∈ members, PlainName m.1)
      (each : ∀ m ∈ members, Plain m.2) : Plain (.object members)

theorem Plain.portable {v : Json} (h : Plain v) : Portable v := by
  induction v using induction with
  | null => exact .null
  | bool b => exact .bool b
  | int n =>
      cases h with
      | int small =>
          obtain ⟨x, nearest, prints⟩ := Double.exists_prints_integerText small
          exact .int nearest prints
  | double x => exact .double x
  | string s => exact .string s
  | array items ih =>
      cases h with
      | array each => exact .array fun x hx => ih x hx (each x hx)
  | object members ih =>
      cases h with
      | object names each =>
          refine .object (fun m hm n hn => ?_) fun m hm => ih m hm (each m hm)
          exact utf16_lt_of_plain (names m hm) (names n hn)

/-! ## Every value has a text -/

theorem exists_forall₂ {α β : Type} {R : α → β → Prop} {xs : List α} (each : ∀ x ∈ xs, ∃ y, R x y) :
    ∃ ys, List.Forall₂ R xs ys := by
  induction xs with
  | nil => exact ⟨[], .nil⟩
  | cons x xs ih =>
      obtain ⟨⟨y, hy⟩, hrest⟩ := List.forall_mem_cons.1 each
      obtain ⟨ys, hys⟩ := ih hrest
      exact ⟨y :: ys, .cons hy hys⟩

theorem exists_conforms {v : Json} (ordered : v.Ordered) (binary64 : v.Binary64) :
    ∃ text, Conforms v text := by
  induction v using induction with
  | null => exact ⟨_, .null⟩
  | bool b => exact ⟨_, .bool b⟩
  | int n =>
      obtain ⟨x, nearest⟩ := Double.exists_nearest n
      exact ⟨_, .int nearest (Double.prints_text nearest.representable)⟩
  | double x =>
      cases binary64 with
      | double representable => exact ⟨_, .double (Double.prints_text representable)⟩
  | string s => exact ⟨_, .string s⟩
  | array items ih =>
      obtain ⟨texts, each⟩ := exists_forall₂ fun x hx =>
        ih x hx (ordered.of_mem_array x hx) (binary64.of_mem_array x hx)
      exact ⟨_, .array each⟩
  | object members ih =>
      obtain ⟨listed, same, sorted⟩ := exists_sorted_utf16 (distinct_of_sorted ordered.sorted)
      have hpiece : ∀ m ∈ listed, ∃ p, Members.Named Conforms m p := by
        intro m hm
        have hmember := same.mem_iff.1 hm
        obtain ⟨text, htext⟩ :=
          ih m hmember (ordered.of_mem_object m hmember) (binary64.of_mem_object m hmember)
        exact ⟨(m.1, text), .intro m.1 htext⟩
      obtain ⟨pieces, each⟩ := exists_forall₂ hpiece
      exact ⟨_, .object same sorted each⟩

/-- Every value has one text of RFC 8785. Its canonical text is this text, and then its hash the
hash of this text, exactly if the value is portable, as all plain values are. -/
theorem canonical_interoperable {v : Json} (ordered : v.Ordered) (binary64 : v.Binary64) :
    (∃! text, Conforms v text) ∧ (Conforms v v.canonicalText ↔ Portable v) ∧
      (Portable v → ∀ text, Conforms v text →
        sha256 (Bytes.ofText (String.ofList text)) = v.hash) ∧
      (Plain v → Portable v) := by
  have hiff := conforms_canonicalText_iff ordered binary64
  obtain ⟨text, htext⟩ := exists_conforms ordered binary64
  refine ⟨⟨text, htext, fun other hother => hother.unique htext⟩, hiff, ?_, Plain.portable⟩
  intro portable text htext
  rw [htext.unique (hiff.2 portable)]
  rfl

end Json

namespace Sample

/-- The least safe integer and the double 1.5. -/
def counted : Json :=
  .object [("count", .array [.int (-9007199254740991)]),
    ("ratio", .double ⟨false, 3 * 2 ^ 51, -52⟩)]

theorem ordered_counted : counted.Ordered := by
  refine .object (List.pairwise_pair.2 (by decide)) (List.forall_mem_cons.2 ⟨?_, ?_⟩)
  · exact .array (List.forall_mem_singleton.2 (.int _))
  · exact List.forall_mem_singleton.2 (.double _)

theorem binary64_counted : counted.Binary64 := by
  refine .object (List.forall_mem_cons.2 ⟨?_, ?_⟩)
  · exact .array (List.forall_mem_singleton.2 (.int _))
  · exact List.forall_mem_singleton.2 (.double ⟨by decide, by decide, by decide⟩)

theorem plain_counted : counted.Plain := by
  refine .object (by decide) (List.forall_mem_cons.2 ⟨?_, ?_⟩)
  · exact .array (List.forall_mem_singleton.2 (.int (by decide)))
  · exact List.forall_mem_singleton.2 (.double _)

end Sample

namespace Json

theorem canonical_interoperable_sample : Conforms Sample.counted Sample.counted.canonicalText := by
  obtain ⟨-, hiff, -, hplain⟩ :=
    canonical_interoperable Sample.ordered_counted Sample.binary64_counted
  exact hiff.2 (hplain Sample.plain_counted)

end Json

namespace Sample

/-- A name and the same name with a character that comes before the quotation mark. -/
def prefixed : Json :=
  .object [("a", .int 1), ("a!", .int 2)]

/-- The least integer that lies between two doubles. -/
def between : Json :=
  .int 9007199254740993

theorem conforms_prefixed : prefixed.Conforms "\x7b\"a\":1,\"a!\":2\x7d".toList := by
  have hint : ∀ n : ℤ, n.natAbs < 2 ^ 53 → Json.Conforms (.int n) (Json.integerText n) := by
    intro n small
    obtain ⟨x, nearest, prints⟩ := Double.exists_prints_integerText small
    exact .int nearest prints
  have htext : "\x7b\"a\":1,\"a!\":2\x7d".toList = '\x7b' :: Json.commaSeparated
      ([("a", Json.integerText 1), ("a!", Json.integerText 2)].map Json.memberText) ++
        ['\x7d'] := by
    decide
  rw [htext]
  refine .object (.refl _) ?_ (.cons (.intro "a" (hint 1 (by decide)))
    (.cons (.intro "a!" (hint 2 (by decide))) .nil))
  exact List.pairwise_pair.2 (by decide)

/-- The integer is a tie, and of the two doubles the smaller one is even. -/
theorem conforms_between : between.Conforms "9007199254740992".toList := by
  have hrepresentable : Double.Representable ⟨false, 2 ^ 52, 1⟩ :=
    ⟨by decide, by decide, fun _ => le_rfl⟩
  have hnearest : Double.Nearest ((9007199254740993 : ℤ) : ℚ) ⟨false, 2 ^ 52, 1⟩ := by
    refine (Double.nearest_iff hrepresentable rfl (Nat.two_pow_pos 52)).2 ⟨?_, ?_, fun _ => ?_⟩
    · norm_num [Double.magnitude, Double.prior, Double.leastExponent]
    · norm_num [Double.magnitude, Double.next]
    · decide
  have htext : Json.canonicalStyle.text ⟨false, 2 ^ 52, 1⟩ = "9007199254740992".toList := by
    decide +kernel
  exact .int hnearest (htext ▸ Double.prints_text hrepresentable)

end Sample

namespace Json

/-- Two canonical texts that are not those of RFC 8785: one lists its members in another order, the
other has a digit that no double has. -/
theorem canonical_disagrees :
    Conforms Sample.prefixed "\x7b\"a\":1,\"a!\":2\x7d".toList ∧
      sha256 (Bytes.ofText "\x7b\"a\":1,\"a!\":2\x7d") ≠ Sample.prefixed.hash ∧
      Conforms Sample.between "9007199254740992".toList ∧
      sha256 (Bytes.ofText "9007199254740992") ≠ Sample.between.hash := by
  refine ⟨Sample.conforms_prefixed, ?_, Sample.conforms_between, ?_⟩ <;> decide +kernel

end Json

end AnchoredDid
