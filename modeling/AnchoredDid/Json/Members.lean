/-!
# Members of an object

The members of an object are kept in increasing order of their names, with no name twice. `insert`
keeps both facts. Names are compared by code points, which is also the order of their UTF-8 bytes.
-/

namespace AnchoredDid

abbrev Members (α : Type) := List (String × α)

namespace Members

variable {α : Type}

/-- The value under a name. -/
def find? (name : String) : Members α → Option α
  | [] => none
  | (n, v) :: rest => if name = n then some v else find? name rest

/-- Puts a value under a name, in place of what was there. -/
def insert (name : String) (value : α) : Members α → Members α
  | [] => [(name, value)]
  | (n, v) :: rest =>
    if name = n then (name, value) :: rest
    else if name < n then (name, value) :: (n, v) :: rest
    else (n, v) :: insert name value rest

/-- Leaves a name out. -/
def erase (name : String) : Members α → Members α
  | [] => []
  | (n, v) :: rest => if name = n then rest else (n, v) :: erase name rest

/-- The members of a list of pairs; of equal names the last counts. -/
def ofList (pairs : List (String × α)) : Members α :=
  pairs.foldl (fun members p => insert p.1 p.2 members) []

/-- `extra` put over `base`. -/
def override (base extra : Members α) : Members α :=
  extra.foldl (fun members p => insert p.1 p.2 members) base

/-- The members whose names are not listed. -/
def without (names : List String) (members : Members α) : Members α :=
  members.filter fun p => !names.contains p.1

/-- Names in increasing order, none twice. -/
def Sorted (members : Members α) : Prop :=
  members.Pairwise fun p q => p.1 < q.1

@[simp] theorem find?_nil (name : String) : find? name ([] : Members α) = none := rfl

@[simp] theorem find?_insert_self (name : String) (value : α) (members : Members α) :
    find? name (insert name value members) = some value := by
  induction members with
  | nil => simp [insert, find?]
  | cons p rest ih =>
    obtain ⟨n, v⟩ := p
    unfold insert
    split
    · simp [find?]
    · split
      · simp [find?]
      · simp [find?, *]

theorem find?_insert_of_ne {name other : String} (h : other ≠ name) (value : α)
    (members : Members α) : find? other (insert name value members) = find? other members := by
  induction members with
  | nil => simp [insert, find?, h]
  | cons p rest ih =>
    obtain ⟨n, v⟩ := p
    unfold insert
    split
    · next hn => subst hn; simp [find?, h]
    · split
      · simp [find?, h]
      · simp [find?, ih]

/-- The members after an insertion are the new one and old ones. -/
theorem mem_of_mem_insert {name : String} {value : α} {members : Members α} {p : String × α}
    (h : p ∈ insert name value members) : p = (name, value) ∨ p ∈ members := by
  induction members with
  | nil => simpa [insert] using h
  | cons q rest ih =>
    obtain ⟨n, v⟩ := q
    unfold insert at h
    split at h
    · rcases List.mem_cons.1 h with rfl | h
      · exact .inl rfl
      · exact .inr (List.mem_cons_of_mem _ h)
    · split at h
      · exact List.mem_cons.1 h
      · rcases List.mem_cons.1 h with rfl | h
        · exact .inr (List.mem_cons_self ..)
        · rcases ih h with h | h
          · exact .inl h
          · exact .inr (List.mem_cons_of_mem _ h)

theorem sorted_insert {members : Members α} (h : Sorted members) (name : String) (value : α) :
    Sorted (insert name value members) := by
  induction members with
  | nil => exact List.pairwise_singleton _ _
  | cons p rest ih =>
    obtain ⟨n, v⟩ := p
    obtain ⟨hn, hrest⟩ := List.pairwise_cons.1 h
    unfold insert
    split
    · next heq =>
      subst heq
      exact List.pairwise_cons.2 ⟨hn, hrest⟩
    · next hne =>
      split
      · next hlt =>
        refine List.pairwise_cons.2 ⟨?_, h⟩
        intro q hq
        rcases List.mem_cons.1 hq with rfl | hq
        · exact hlt
        · exact String.lt_trans hlt (hn q hq)
      · next hle =>
        refine List.pairwise_cons.2 ⟨?_, ih hrest⟩
        intro q hq
        rcases mem_of_mem_insert hq with rfl | hq
        · exact (Std.lt_trichotomy n name).resolve_right (by rintro (rfl | hlt) <;> simp_all)
        · exact hn q hq

theorem sorted_foldl_insert (pairs : List (String × α)) {members : Members α} (h : Sorted members) :
    Sorted (pairs.foldl (fun members p => insert p.1 p.2 members) members) := by
  induction pairs generalizing members with
  | nil => exact h
  | cons p rest ih => exact ih (sorted_insert h p.1 p.2)

theorem sorted_ofList (pairs : List (String × α)) : Sorted (ofList pairs) :=
  sorted_foldl_insert pairs List.Pairwise.nil

theorem sorted_override {base : Members α} (h : Sorted base) (extra : Members α) :
    Sorted (override base extra) :=
  sorted_foldl_insert extra h

theorem sorted_without {members : Members α} (h : Sorted members) (names : List String) :
    Sorted (without names members) :=
  List.Pairwise.filter _ h

theorem mem_of_mem_erase {name : String} {members : Members α} {p : String × α}
    (h : p ∈ erase name members) : p ∈ members := by
  induction members with
  | nil => simp [erase] at h
  | cons q rest ih =>
    obtain ⟨n, v⟩ := q
    unfold erase at h
    split at h
    · exact List.mem_cons_of_mem _ h
    · rcases List.mem_cons.1 h with rfl | h
      · exact List.mem_cons_self ..
      · exact List.mem_cons_of_mem _ (ih h)

theorem sorted_erase {members : Members α} (h : Sorted members) (name : String) :
    Sorted (erase name members) := by
  induction members with
  | nil => exact h
  | cons p rest ih =>
    obtain ⟨n, v⟩ := p
    obtain ⟨hn, hrest⟩ := List.pairwise_cons.1 h
    unfold erase
    split
    · exact hrest
    · exact List.pairwise_cons.2 ⟨fun q hq => hn q (mem_of_mem_erase hq), ih hrest⟩

end Members

end AnchoredDid
