import AnchoredDid.Proofs.Json.Alike

/-!
# Equal values

Comparison holds of a value and itself, and of containers whose parts it holds of. Equal values are
alike (`Json.alike_of_equal`): they differ in the signs of zeros at most. Alike values need not be
equal, but comparing them with a value without numbers comes out the same
(`Json.equal_eq_of_alike`).
-/

namespace AnchoredDid

theorem Double.equal_self (x : Double) : x.equal x = true := by
  simp [Double.equal]

/-- Equal doubles are the same but for the sign of zero, which hashes do not see. -/
theorem Double.text_eq_of_equal {x y : Double} (h : x.equal y = true) :
    Json.canonicalStyle.text x = Json.canonicalStyle.text y := by
  obtain ⟨negative, significand, exponent⟩ := x
  obtain ⟨negative', significand', exponent'⟩ := y
  simp only [Double.equal, Bool.and_eq_true, decide_eq_true_eq, Bool.or_eq_true, beq_iff_eq] at h
  obtain ⟨⟨rfl, rfl⟩, rfl | rfl⟩ := h
  · rfl
  · rfl

namespace Json

theorem equalItems_iff_forall₂ {xs ys : List Json} :
    equalItems xs ys = true ↔ List.Forall₂ (fun x y => equal x y = true) xs ys := by
  induction xs generalizing ys with
  | nil =>
      cases ys with
      | nil => exact iff_of_true rfl .nil
      | cons _ _ => exact iff_of_false nofun nofun
  | cons x xs ih =>
      cases ys with
      | nil => exact iff_of_false nofun nofun
      | cons y ys => rw [equalItems, Bool.and_eq_true, List.forall₂_cons, ih]

theorem equalMembers_iff_forall₂ {ms ns : List (String × Json)} : equalMembers ms ns = true ↔
    List.Forall₂ (Members.Named fun x y => equal x y = true) ms ns := by
  induction ms generalizing ns with
  | nil =>
      cases ns with
      | nil => exact iff_of_true rfl .nil
      | cons _ _ => exact iff_of_false nofun nofun
  | cons m ms ih =>
      cases ns with
      | nil => exact iff_of_false nofun nofun
      | cons n ns =>
          rw [equalMembers, Bool.and_eq_true, Bool.and_eq_true, beq_iff_eq, List.forall₂_cons, ih,
            Members.named_iff]

theorem equal_self (x : Json) : x.equal x = true := by
  induction x using induction with
  | null => rfl
  | bool b => exact beq_self_eq_true b
  | int n => exact beq_self_eq_true n
  | double x => exact x.equal_self
  | string s => exact beq_self_eq_true s
  | array items ih => exact equalItems_iff_forall₂.2 (List.forall₂_same.2 ih)
  | object members ih =>
      exact equalMembers_iff_forall₂.2 (List.forall₂_same.2 fun m hm => .intro m.1 (ih m hm))

/-- Hashes do not tell equal values apart. -/
theorem alike_of_equal {x y : Json} (h : x.equal y = true) : Alike x y := by
  induction x using induction generalizing y with
  | array items ih =>
      cases y with
      | array others =>
          have heach := (List.forall₂_and_left _ _).2
            ⟨fun x hx y => ih x hx (y := y), equalItems_iff_forall₂.1 h⟩
          exact .array (heach.imp fun x y ⟨halike, hequal⟩ => halike y hequal)
      | _ => cases h
  | object members ih =>
      cases y with
      | object others =>
          have heach := (List.forall₂_and_left _ _).2
            ⟨fun m hm y => ih m hm (y := y), equalMembers_iff_forall₂.1 h⟩
          refine .object (heach.imp ?_)
          rintro m n ⟨halike, hnamed⟩
          obtain ⟨name, hequal⟩ := hnamed
          exact .intro name (halike _ hequal)
      | _ => cases h
  | double x =>
      cases y with
      | double y => exact .number rfl rfl (Double.text_eq_of_equal h)
      | _ => cases h
  | null =>
      cases y with
      | null => exact .null
      | _ => cases h
  | bool b =>
      cases y with
      | bool c => exact beq_iff_eq.1 h ▸ .bool b
      | _ => cases h
  | int n =>
      cases y with
      | int m => exact beq_iff_eq.1 h ▸ .refl (.int n)
      | _ => cases h
  | string s =>
      cases y with
      | string t => exact beq_iff_eq.1 h ▸ .string s
      | _ => cases h

/-! ## Values without numbers -/

mutual

/-- There is no number anywhere in the value. -/
def numberFree : Json → Bool
  | int _ | double _ => false
  | array items => numberFreeItems items
  | object members => numberFreeMembers members
  | _ => true

def numberFreeItems : List Json → Bool
  | [] => true
  | x :: rest => numberFree x && numberFreeItems rest

def numberFreeMembers : List (String × Json) → Bool
  | [] => true
  | (_, x) :: rest => numberFree x && numberFreeMembers rest

end

theorem equal_of_isNumber {x v : Json} (h : x.isNumber = true) (hv : v.isNumber = false) :
    x.equal v = false := by
  cases x with
  | int n =>
      cases v with
      | int m => cases hv
      | _ => rfl
  | double x =>
      cases v with
      | double y => cases hv
      | _ => rfl
  | _ => cases h

theorem equalItems_eq_of_alike {items : List Json}
    (each : ∀ v ∈ items, v.numberFree = true → ∀ x y, Alike x y → x.equal v = y.equal v)
    (hfree : numberFreeItems items = true) {xs ys : List Json} (h : List.Forall₂ Alike xs ys) :
    equalItems xs items = equalItems ys items := by
  induction items generalizing xs ys with
  | nil =>
      cases h with
      | nil => rfl
      | cons _ _ => rfl
  | cons v items ih =>
      obtain ⟨hfirst, hrest⟩ := List.forall_mem_cons.1 each
      rw [numberFreeItems, Bool.and_eq_true] at hfree
      cases h with
      | nil => rfl
      | cons hxy hxs => rw [equalItems, equalItems, hfirst hfree.1 _ _ hxy, ih hrest hfree.2 hxs]

theorem equalMembers_eq_of_alike {members : List (String × Json)}
    (each : ∀ m ∈ members, m.2.numberFree = true → ∀ x y, Alike x y → x.equal m.2 = y.equal m.2)
    (hfree : numberFreeMembers members = true) {ms ns : List (String × Json)}
    (h : List.Forall₂ (Members.Named Alike) ms ns) :
    equalMembers ms members = equalMembers ns members := by
  induction members generalizing ms ns with
  | nil =>
      cases h with
      | nil => rfl
      | cons _ _ => rfl
  | cons m members ih =>
      obtain ⟨hfirst, hrest⟩ := List.forall_mem_cons.1 each
      rw [numberFreeMembers, Bool.and_eq_true] at hfree
      cases h with
      | nil => rfl
      | cons hnamed hms =>
          obtain ⟨name, hxy⟩ := hnamed
          rw [equalMembers, equalMembers, hfirst hfree.1 _ _ hxy, ih hrest hfree.2 hms]

theorem isNumber_of_numberFree {v : Json} (h : v.numberFree = true) : v.isNumber = false := by
  cases v with
  | int n => cases h
  | double x => cases h
  | _ => rfl

/-- Comparing with a value that holds no number does not tell alike values apart. -/
theorem equal_eq_of_alike {x y v : Json} (hfree : v.numberFree = true) (h : Alike x y) :
    x.equal v = y.equal v := by
  induction v using induction generalizing x y with
  | int n => cases hfree
  | double x => cases hfree
  | array items ih =>
      cases h with
      | number left right _ => rw [equal_of_isNumber left rfl, equal_of_isNumber right rfl]
      | array each =>
          exact equalItems_eq_of_alike (fun v hv hfree x y hxy => ih v hv hfree hxy) hfree each
      | _ => rfl
  | object members ih =>
      cases h with
      | number left right _ => rw [equal_of_isNumber left rfl, equal_of_isNumber right rfl]
      | object each =>
          exact equalMembers_eq_of_alike (fun m hm hfree x y hxy => ih m hm hfree hxy) hfree each
      | _ => rfl
  | _ =>
      cases h with
      | number left right _ =>
          rw [equal_of_isNumber left (isNumber_of_numberFree hfree),
            equal_of_isNumber right (isNumber_of_numberFree hfree)]
      | _ => rfl

end Json

end AnchoredDid
