import AnchoredDid.Json.Record

/-!
# Looking up members

What is found under a name depends only on the last pair with that name, however the members were
put together. Members in order are determined by what is found in them (`Members.Sorted.ext`), so
known members and further ones can be put together and taken apart again
(`Members.without_override`).
-/

namespace AnchoredDid

namespace Members

variable {α : Type} {name : String}

/-- The value of the last pair with a name. -/
def last? (name : String) : List (String × α) → Option α
  | [] => none
  | p :: rest => (last? name rest).or (if p.1 = name then some p.2 else none)

@[simp] theorem last?_nil : last? name ([] : List (String × α)) = none := rfl

@[simp] theorem last?_cons (p : String × α) (rest : List (String × α)) :
    last? name (p :: rest) = (last? name rest).or (if p.1 = name then some p.2 else none) := rfl

@[simp] theorem last?_append (pairs later : List (String × α)) :
    last? name (pairs ++ later) = (last? name later).or (last? name pairs) := by
  induction pairs with
  | nil => simp
  | cons p rest ih => rw [List.cons_append, last?_cons, last?_cons, ih, Option.or_assoc]

theorem find?_foldl_insert (pairs : List (String × α)) (members : Members α) :
    find? name (pairs.foldl (fun members p => insert p.1 p.2 members) members) =
      (last? name pairs).or (find? name members) := by
  induction pairs generalizing members with
  | nil => rfl
  | cons p rest ih =>
      rw [List.foldl_cons, ih, last?_cons, Option.or_assoc]
      by_cases hp : p.1 = name
      · subst hp
        simp
      · rw [find?_insert_of_ne (Ne.symm hp)]
        simp [hp]

@[simp] theorem find?_ofList (pairs : List (String × α)) :
    find? name (ofList pairs) = last? name pairs := by
  rw [ofList, find?_foldl_insert, find?_nil, Option.or_none]

theorem find?_eq_none_iff {members : Members α} :
    find? name members = none ↔ ∀ m ∈ members, m.1 ≠ name := by
  induction members with
  | nil => simp
  | cons p rest ih =>
      obtain ⟨n, v⟩ := p
      by_cases hn : name = n
      · subst hn
        simp [find?]
      · simp [find?, hn, ih, Ne.symm hn]

theorem mem_of_mem_foldl_insert {pairs : List (String × α)} {members : Members α} {m : String × α}
    (h : m ∈ pairs.foldl (fun members p => insert p.1 p.2 members) members) :
    m ∈ pairs ∨ m ∈ members := by
  induction pairs generalizing members with
  | nil => exact .inr h
  | cons p rest ih =>
      rcases ih h with h | h
      · exact .inl (List.mem_cons_of_mem _ h)
      · rcases mem_of_mem_insert h with rfl | h
        · exact .inl List.mem_cons_self
        · exact .inr h

theorem mem_of_mem_ofList {pairs : List (String × α)} {m : String × α} (h : m ∈ ofList pairs) :
    m ∈ pairs :=
  (mem_of_mem_foldl_insert h).resolve_right List.not_mem_nil

theorem mem_of_mem_override {base extra : Members α} {m : String × α}
    (h : m ∈ override base extra) : m ∈ extra ∨ m ∈ base :=
  mem_of_mem_foldl_insert h

namespace Sorted

variable {p q : String × α} {members rest later : Members α}

/-- The first name does not come again. -/
theorem find?_rest (h : Sorted (p :: rest)) : find? p.1 rest = none :=
  find?_eq_none_iff.2 fun m hm heq =>
    String.lt_irrefl _ (heq ▸ (List.pairwise_cons.1 h).1 m hm)

/-- A smaller name than the first is not there. -/
theorem find?_of_lt (h : Sorted (p :: rest)) (hlt : name < p.1) :
    find? name (p :: rest) = none := by
  refine find?_eq_none_iff.2 (List.forall_mem_cons.2 ⟨?_, ?_⟩)
  · rintro rfl
    exact String.lt_irrefl _ hlt
  · intro m hm heq
    exact String.lt_irrefl _ (String.lt_trans hlt (heq ▸ (List.pairwise_cons.1 h).1 m hm))

/-- In members the last pair with a name is the only one. -/
theorem last?_eq (h : members.Sorted) : last? name members = find? name members := by
  induction members with
  | nil => rfl
  | cons p rest ih =>
      rw [last?_cons, ih (List.pairwise_cons.1 h).2]
      obtain ⟨n, v⟩ := p
      by_cases hn : name = n
      · subst hn
        simp [find?, h.find?_rest]
      · simp [find?, hn, Ne.symm hn]

theorem head_eq (h : Sorted (p :: rest)) (h' : Sorted (q :: later))
    (hfind : ∀ name, find? name (p :: rest) = find? name (q :: later)) : p = q := by
  obtain ⟨n, v⟩ := p
  obtain ⟨n', v'⟩ := q
  have hn : n = n' := by
    rcases Std.lt_trichotomy n n' with hlt | heq | hlt
    · have hfound := hfind n
      rw [h'.find?_of_lt hlt] at hfound
      simp [find?] at hfound
    · exact heq
    · have hfound := hfind n'
      rw [h.find?_of_lt hlt] at hfound
      simp [find?] at hfound
  subst hn
  have hv : v = v' := by simpa [find?] using hfind n
  rw [hv]

/-- Members in order are equal if the same is found in them. -/
theorem ext {others : Members α} (h : members.Sorted) (h' : others.Sorted)
    (hfind : ∀ name, find? name members = find? name others) : members = others := by
  induction members generalizing others with
  | nil =>
      cases others with
      | nil => rfl
      | cons q later => simpa [find?] using hfind q.1
  | cons p rest ih =>
      cases others with
      | nil => simpa [find?] using hfind p.1
      | cons q later =>
          obtain rfl := head_eq h h' hfind
          have hrest : ∀ name, find? name rest = find? name later := by
            intro name
            by_cases hname : name = p.1
            · rw [hname, h.find?_rest, h'.find?_rest]
            · simpa [find?, hname] using hfind name
          rw [ih (List.pairwise_cons.1 h).2 (List.pairwise_cons.1 h').2 hrest]

end Sorted

theorem find?_of_mem {members : Members α} (h : members.Sorted) {m : String × α}
    (hm : m ∈ members) : find? m.1 members = some m.2 := by
  induction members with
  | nil => cases hm
  | cons p rest ih =>
      obtain ⟨hfirst, hrest⟩ := List.pairwise_cons.1 h
      rcases List.mem_cons.1 hm with rfl | hm
      · simp [find?]
      · have hne : m.1 ≠ p.1 := fun heq => String.lt_irrefl _ (heq ▸ hfirst m hm)
        rw [find?, if_neg hne, ih hrest hm]

theorem find?_override (base : Members α) {extra : Members α} (h : extra.Sorted) :
    find? name (override base extra) = (find? name extra).or (find? name base) := by
  rw [override, find?_foldl_insert, h.last?_eq]

theorem find?_filter (p : String → Bool) (members : Members α) :
    find? name (members.filter fun m => p m.1) = if p name then find? name members else none := by
  induction members with
  | nil => simp
  | cons m rest ih =>
      obtain ⟨n, v⟩ := m
      by_cases hn : p n
      · rw [List.filter_cons_of_pos (by exact hn), find?, find?, ih]
        by_cases hname : name = n
        · simp [hname, hn]
        · simp [hname]
      · rw [List.filter_cons_of_neg (by exact hn), ih, find?]
        by_cases hname : name = n
        · simp [hname, hn]
        · simp [hname]

theorem find?_without (names : List String) (members : Members α) :
    find? name (without names members) = if name ∈ names then none else find? name members := by
  rw [without, find?_filter fun n => !names.contains n]
  by_cases hname : name ∈ names <;> simp [hname]

@[simp] theorem without_nil (members : Members α) : without [] members = members := by
  simp [without]

/-- Further members are found again behind known ones, whose names they do not have. -/
theorem without_override {names : List String} {base extra : Members α} (hbase : base.Sorted)
    (hextra : extra.Sorted) (known : ∀ m ∈ base, m.1 ∈ names) (free : ∀ m ∈ extra, m.1 ∉ names) :
    without names (override base extra) = extra := by
  apply Sorted.ext (sorted_without (sorted_override hbase extra) names) hextra
  intro name
  rw [find?_without, find?_override base hextra]
  by_cases hname : name ∈ names
  · rw [if_pos hname]
    exact (find?_eq_none_iff.2 fun m hm heq => free m hm (heq ▸ hname)).symm
  · have hnone : find? name base = none :=
      find?_eq_none_iff.2 fun m hm heq => hname (heq ▸ known m hm)
    rw [if_neg hname, hnone, Option.or_none]

/-- Of two insertions under a name the later one counts. -/
theorem insert_insert (name : String) (first second : α) (members : Members α) :
    insert name second (insert name first members) = insert name second members := by
  induction members with
  | nil => simp [insert]
  | cons p members ih =>
      obtain ⟨n, v⟩ := p
      rw [insert, insert]
      split
      · simp [insert]
      · split
        · simp [insert]
        · simp [insert, *]

theorem mem_of_find? {members : Members α} {value : α} (h : find? name members = some value) :
    (name, value) ∈ members := by
  induction members with
  | nil => cases h
  | cons p rest ih =>
      obtain ⟨n, v⟩ := p
      rw [find?] at h
      split at h
      · next hname =>
        rw [hname, Option.some.inj h]
        exact List.mem_cons_self
      · exact List.mem_cons_of_mem _ (ih h)

/-- What is put in place of itself changes nothing. -/
theorem insert_eq_self {members : Members α} (h : members.Sorted) {name : String} {value : α}
    (hfind : find? name members = some value) : insert name value members = members := by
  induction members with
  | nil => cases hfind
  | cons p rest ih =>
      obtain ⟨n, v⟩ := p
      obtain ⟨hfirst, hrest⟩ := List.pairwise_cons.1 h
      rw [find?] at hfind
      rw [insert]
      split at hfind
      · next hname => rw [if_pos hname, ← Option.some.inj hfind, hname]
      · next hname =>
        have hlater : n < name := hfirst (name, value) (mem_of_find? hfind)
        have hnot : ¬ name < n := fun hlt => String.lt_irrefl _ (String.lt_trans hlt hlater)
        rw [if_neg hname, if_neg hnot, ih hrest hfind]

theorem find?_insert (name other : String) (value : α) (members : Members α) :
    find? other (insert name value members) =
      if other = name then some value else find? other members := by
  by_cases hother : other = name
  · rw [if_pos hother, hother, find?_insert_self]
  · rw [if_neg hother, find?_insert_of_ne hother]

theorem find?_erase {members : Members α} (h : members.Sorted) (name other : String) :
    find? other (erase name members) = if other = name then none else find? other members := by
  induction members with
  | nil => simp [erase]
  | cons p rest ih =>
      obtain ⟨n, v⟩ := p
      have hrest := ih (List.pairwise_cons.1 h).2
      rw [erase]
      split
      · next hname =>
        subst hname
        by_cases hother : other = name
        · rw [if_pos hother, hother]
          exact h.find?_rest
        · rw [if_neg hother, find?, if_neg hother]
      · next hname =>
        by_cases hother : other = name
        · rw [find?, if_neg (hother ▸ hname), hrest, if_pos hother, if_pos hother]
        · rw [find?, find?, hrest, if_neg hother, if_neg hother]

/-- What is left out and put back changes nothing. -/
theorem insert_erase {members : Members α} (h : members.Sorted) {name : String} {value : α}
    (hfind : find? name members = some value) :
    insert name value (erase name members) = members := by
  refine Sorted.ext (sorted_insert (sorted_erase h name) name value) h fun other => ?_
  rw [find?_insert, find?_erase h]
  by_cases hother : other = name
  · rw [if_pos hother, hother, hfind]
  · rw [if_neg hother, if_neg hother]

section Middle

variable {before rest : Members α} {value : α} (h : ∀ m ∈ before, m.1 ≠ name)

include h

theorem find?_middle : find? name (before ++ (name, value) :: rest) = some value := by
  induction before with
  | nil => simp [find?]
  | cons m before ih =>
      obtain ⟨hfirst, hlater⟩ := List.forall_mem_cons.1 h
      rw [List.cons_append, find?, if_neg hfirst.symm, ih hlater]

theorem erase_middle : erase name (before ++ (name, value) :: rest) = before ++ rest := by
  induction before with
  | nil => simp [erase]
  | cons m before ih =>
      obtain ⟨hfirst, hlater⟩ := List.forall_mem_cons.1 h
      rw [List.cons_append, erase, if_neg hfirst.symm, ih hlater, List.cons_append]

end Middle

/-- Values that were found under names are found there again. -/
theorem last?_zip {members : Members α} {names : List String} {values : List α}
    (h : names.map (fun name => find? name members) = values.map some) :
    last? name (names.zip values) =
      if name ∈ names then find? name members else none := by
  induction names generalizing values with
  | nil => simp
  | cons n names ih =>
      cases values with
      | nil => cases h
      | cons v values =>
          obtain ⟨hfirst, hrest⟩ := List.cons.inj h
          rw [List.zip_cons_cons, last?_cons, ih hrest]
          by_cases hn : n = name
          · subst hn
            dsimp only at hfirst
            by_cases hmem : n ∈ names <;> simp [hmem, hfirst]
          · simp [hn, Ne.symm hn]

/-- Members are what they are put together from: known members, in which the same is found under the
known names but for some that are dropped, and the further ones. -/
theorem override_without {names dropped : List String} {base members : Members α}
    (hbase : base.Sorted) (hmembers : members.Sorted) (known : ∀ m ∈ base, m.1 ∈ names)
    (hdropped : ∀ name ∈ dropped, name ∈ names)
    (hfind : ∀ name ∈ names,
      find? name base = if name ∈ dropped then none else find? name members) :
    override base (without names members) = without dropped members := by
  have hextra := sorted_without hmembers names
  apply Sorted.ext (sorted_override hbase _) (sorted_without hmembers dropped)
  intro name
  rw [find?_override base hextra, find?_without, find?_without]
  by_cases hname : name ∈ names
  · rw [if_pos hname, Option.none_or, hfind name hname]
  · have hnone : find? name base = none :=
      find?_eq_none_iff.2 fun m hm heq => hname (heq ▸ known m hm)
    rw [if_neg hname, if_neg fun h => hname (hdropped name h), hnone, Option.or_none]

variable {α β : Type}

/-- Members of one name with related values. -/
inductive Named (R : α → β → Prop) : String × α → String × β → Prop where
  | intro (name : String) {x : α} {y : β} (value : R x y) : Named R (name, x) (name, y)

theorem named_iff {R : α → β → Prop} {m : String × α} {n : String × β} :
    Named R m n ↔ m.1 = n.1 ∧ R m.2 n.2 := by
  constructor
  · rintro ⟨name, value⟩
    exact ⟨rfl, value⟩
  · obtain ⟨name, x⟩ := m
    obtain ⟨other, y⟩ := n
    rintro ⟨rfl, value⟩
    exact .intro name value

end Members

namespace Json

/-- An optional member is found if it is there. -/
@[simp] theorem last?_optional (key name : String) (value : Option Json) :
    Members.last? name (optional key value) = if key = name then value else none := by
  by_cases hname : key = name <;> cases value <;> simp [optional, hname]

@[simp] theorem member?_ofMembers (name : String) (pairs : List (String × Json)) :
    (ofMembers pairs).member? name = Members.last? name pairs :=
  Members.find?_ofList pairs

end Json

end AnchoredDid
