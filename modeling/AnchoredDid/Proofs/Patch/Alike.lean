import AnchoredDid.Proofs.Json.Equal
import AnchoredDid.Proofs.Patch

/-!
# Patching values that hashes do not tell apart

A patch leads alike values to alike values, or fails on both for the same reason, unless one of its
tests compares with a number (`Patch.apply_alike`): a test tells the integer 1 from the double 1.0,
which their canonical text does not. Such a test is all that can keep a patch that applies to one of
the values from applying to the other (`Patch.apply_of_alike`).
-/

namespace AnchoredDid

/-- The same failure, or values that a relation holds of. -/
inductive SameOutcome {ε α β : Type} (R : α → β → Prop) : Except ε α → Except ε β → Prop where
  | ok {x : α} {y : β} (rel : R x y) : SameOutcome R (.ok x) (.ok y)
  | error (e : ε) : SameOutcome R (.error e) (.error e)

namespace SameOutcome

variable {ε α β γ δ : Type} {R : α → β → Prop} {S : γ → δ → Prop}

theorem bind {a : Except ε α} {b : Except ε β} {f : α → Except ε γ} {g : β → Except ε δ}
    (h : SameOutcome R a b) (hfg : ∀ x y, R x y → SameOutcome S (f x) (g y)) :
    SameOutcome S (a >>= f) (b >>= g) := by
  cases h with
  | ok hxy => exact hfg _ _ hxy
  | error e => exact .error e

/-- A step that does not look at the values goes the same way. -/
theorem bind_same (c : Except ε α) {f : α → Except ε γ} {g : α → Except ε δ}
    (hfg : ∀ v, SameOutcome S (f v) (g v)) : SameOutcome S (c >>= f) (c >>= g) := by
  cases c with
  | ok v => exact hfg v
  | error e => exact .error e

theorem map {a : Except ε α} {b : Except ε β} {f : α → γ} {g : β → δ} (h : SameOutcome R a b)
    (hfg : ∀ x y, R x y → S (f x) (g y)) : SameOutcome S (a.map f) (b.map g) := by
  cases h with
  | ok hxy => exact .ok (hfg _ _ hxy)
  | error e => exact .error e

theorem exists_of_ok {x : α} {b : Except ε β} (h : SameOutcome R (.ok x) b) :
    ∃ y, b = .ok y ∧ R x y := by
  cases h with
  | ok hxy => exact ⟨_, rfl, hxy⟩

end SameOutcome

namespace Json

theorem getElem?_rel {xs ys : List Json} (h : List.Forall₂ Alike xs ys) (i : Nat) :
    Option.Rel Alike xs[i]? ys[i]? := by
  induction h generalizing i with
  | nil => exact .none
  | cons hxy _ ih =>
      cases i with
      | zero => exact .some hxy
      | succ i => exact ih i

end Json

namespace Pointer

variable {x y : Json} {path token : String}

theorem child_of_isNumber (h : x.isNumber = true) :
    child path token x = .error (.notFound path) :=
  Json.isNumber_cases h (fun _ => rfl) fun _ => rfl

theorem setChild_of_isNumber (h : x.isNumber = true) (new : Json) :
    setChild path token new x = .error (.notFound path) :=
  Json.isNumber_cases h (fun _ => rfl) fun _ => rfl

theorem child_alike (h : x.Alike y) :
    SameOutcome Json.Alike (child path token x) (child path token y) := by
  cases h with
  | number left right _ =>
      rw [child_of_isNumber left, child_of_isNumber right]
      exact .error _
  | @array xs ys each =>
      rw [child, child, each.length_eq]
      refine .bind_same _ fun i => ?_
      have helement := Json.getElem?_rel each i
      generalize xs[i]? = found, ys[i]? = found' at helement ⊢
      cases helement with
      | none => exact .error _
      | some hxy => exact .ok hxy
  | @object ms ns each =>
      have hmember := Members.find?_rel each token
      rw [child, child]
      generalize Members.find? token ms = found, Members.find? token ns = found' at hmember ⊢
      cases hmember with
      | none => exact .error _
      | some hxy => exact .ok hxy
  | _ => exact .error _

theorem setChild_alike (h : x.Alike y) {new new' : Json} (hnew : new.Alike new') :
    SameOutcome Json.Alike (setChild path token new x) (setChild path token new' y) := by
  cases h with
  | number left right _ =>
      rw [setChild_of_isNumber left, setChild_of_isNumber right]
      exact .error _
  | array each =>
      rw [setChild, setChild, each.length_eq]
      refine .bind_same _ fun i => .ok (.array ?_)
      rw [List.set_eq_take_append_cons_drop, List.set_eq_take_append_cons_drop, each.length_eq]
      split
      · exact List.rel_append (List.forall₂_take i each) (.cons hnew (List.forall₂_drop _ each))
      · exact each
  | object each => exact .ok (.object (Members.insert_rel each token hnew))
  | _ => exact .error _

theorem follow_alike (h : x.Alike y) (tokens : List String) :
    SameOutcome Json.Alike (follow path tokens x) (follow path tokens y) := by
  induction tokens generalizing x y with
  | nil => exact .ok h
  | cons token tokens ih => exact (child_alike h).bind fun _ _ hnext => ih hnext

theorem editAt_alike {edit edit' : Json → Except PatchError Json}
    (hedit : ∀ x y, x.Alike y → SameOutcome Json.Alike (edit x) (edit' y)) (h : x.Alike y)
    (tokens : List String) :
    SameOutcome Json.Alike (editAt path edit tokens x) (editAt path edit' tokens y) := by
  induction tokens generalizing x y with
  | nil => exact hedit x y h
  | cons token tokens ih =>
      exact (child_alike h).bind fun _ _ hnext =>
        (ih hnext).bind fun _ _ hedited => setChild_alike h hedited

end Pointer

namespace Operation

variable {x y : Json} {path token : String}

theorem insertChild_of_isNumber (h : x.isNumber = true) (new : Json) :
    insertChild path token new x = .error (.notFound path) :=
  Json.isNumber_cases h (fun _ => rfl) fun _ => rfl

theorem eraseChild_of_isNumber (h : x.isNumber = true) :
    eraseChild path token x = .error (.notFound path) :=
  Json.isNumber_cases h (fun _ => rfl) fun _ => rfl

theorem insertChild_alike (h : x.Alike y) {new new' : Json} (hnew : new.Alike new') :
    SameOutcome Json.Alike (insertChild path token new x) (insertChild path token new' y) := by
  cases h with
  | number left right _ =>
      rw [insertChild_of_isNumber left, insertChild_of_isNumber right]
      exact .error _
  | array each =>
      rw [insertChild, insertChild, each.length_eq]
      split
      · exact .ok (.array (List.rel_append each (.cons hnew .nil)))
      · refine .bind_same _ fun i => .ok (.array ?_)
        exact List.rel_append (List.forall₂_take i each)
          (.cons hnew (List.forall₂_drop i each))
  | object each => exact .ok (.object (Members.insert_rel each token hnew))
  | _ => exact .error _

theorem eraseChild_alike (h : x.Alike y) :
    SameOutcome Json.Alike (eraseChild path token x) (eraseChild path token y) := by
  cases h with
  | number left right _ =>
      rw [eraseChild_of_isNumber left, eraseChild_of_isNumber right]
      exact .error _
  | array each =>
      rw [eraseChild, eraseChild, each.length_eq]
      refine .bind_same _ fun i => .ok (.array ?_)
      rw [List.eraseIdx_eq_take_drop_succ, List.eraseIdx_eq_take_drop_succ]
      exact List.rel_append (List.forall₂_take i each) (List.forall₂_drop _ each)
  | @object ms ns each =>
      have hmember := Members.find?_rel each token
      rw [eraseChild, eraseChild]
      generalize Members.find? token ms = found, Members.find? token ns = found' at hmember ⊢
      cases hmember with
      | none => exact .error _
      | some _ => exact .ok (.object (Members.erase_rel each token))
  | _ => exact .error _

theorem editParent_alike {edit edit' : String → Json → Except PatchError Json}
    (hedit : ∀ token x y, x.Alike y → SameOutcome Json.Alike (edit token x) (edit' token y))
    (h : x.Alike y) :
    SameOutcome Json.Alike (editParent path edit x) (editParent path edit' y) := by
  refine .bind_same _ fun tokens => ?_
  cases tokens.getLast? with
  | none => exact .error _
  | some last => exact Pointer.editAt_alike (hedit last) h _

theorem valueAt_alike (h : x.Alike y) : SameOutcome Json.Alike (valueAt path x) (valueAt path y) :=
  .bind_same _ fun tokens => Pointer.follow_alike h tokens

theorem addAt_alike (h : x.Alike y) {new new' : Json} (hnew : new.Alike new') :
    SameOutcome Json.Alike (addAt path new x) (addAt path new' y) := by
  rw [addAt, addAt]
  split
  · exact .ok hnew
  · exact editParent_alike (fun _ _ _ h => insertChild_alike h hnew) h

theorem removeAt_alike (h : x.Alike y) :
    SameOutcome Json.Alike (removeAt path x) (removeAt path y) :=
  editParent_alike (fun _ _ _ => eraseChild_alike) h

theorem replaceAt_alike (h : x.Alike y) (new : Json) :
    SameOutcome Json.Alike (replaceAt path new x) (replaceAt path new y) :=
  .bind_same _ fun tokens => Pointer.editAt_alike (fun _ _ _ => .ok (.refl new)) h tokens

/-- The operation is no test that compares with a number. -/
def isSteady : Operation → Bool
  | test _ value => value.numberFree
  | _ => true

theorem apply_alike {operation : Operation} (hsteady : operation.isSteady = true)
    (h : x.Alike y) : SameOutcome Json.Alike (operation.apply x) (operation.apply y) := by
  cases operation with
  | add path value => exact addAt_alike h (.refl value)
  | remove path => exact removeAt_alike h
  | replace path value => exact replaceAt_alike h value
  | move source path =>
      rw [apply, apply]
      split
      · exact .ok h
      split
      · exact .error _
      · exact (valueAt_alike h).bind fun _ _ hvalue =>
          (removeAt_alike h).bind fun _ _ hwithout => addAt_alike hwithout hvalue
  | copy source path => exact (valueAt_alike h).bind fun _ _ hvalue => addAt_alike h hvalue
  | test path value =>
      refine (valueAt_alike h).bind fun found found' hfound => ?_
      rw [Json.equal_eq_of_alike hsteady hfound]
      split
      · exact .ok h
      · exact .error _

/-- An operation that applies to a value applies to every alike one, unless it is a test that
compares with a number. -/
theorem apply_of_alike {operation : Operation} (h : x.Alike y) {x' : Json}
    (hx : operation.apply x = .ok x') :
    (∃ y', operation.apply y = .ok y' ∧ x'.Alike y') ∨
      ∃ path value, operation = test path value ∧ value.numberFree = false ∧
        operation.apply y = .error (.testFailed path) := by
  cases hsteady : operation.isSteady with
  | true =>
      have hsame := apply_alike hsteady h
      rw [hx] at hsame
      exact .inl hsame.exists_of_ok
  | false =>
      cases operation with
      | test path value =>
          obtain rfl := eq_of_apply_test hx
          obtain ⟨found, hfound, -⟩ := bind_eq_ok_iff.1 hx
          have hvalue : SameOutcome Json.Alike (valueAt path x') (valueAt path y) := valueAt_alike h
          rw [hfound] at hvalue
          obtain ⟨found', hfound', -⟩ := hvalue.exists_of_ok
          rw [apply, hfound']
          cases hequal : found'.equal value with
          | true => exact .inl ⟨y, if_pos hequal, h⟩
          | false => exact .inr ⟨path, value, rfl, hsteady, if_neg (Bool.eq_false_iff.1 hequal)⟩
      | _ => cases hsteady

end Operation

namespace Patch

variable {patch : Patch} {x y : Json}

/-- None of the tests compares with a number. -/
def Steady (patch : Patch) : Prop :=
  ∀ operation ∈ patch, operation.isSteady = true

instance (patch : Patch) : Decidable patch.Steady :=
  inferInstanceAs (Decidable (∀ operation ∈ patch, operation.isSteady = true))

theorem apply_alike (hsteady : patch.Steady) (h : x.Alike y) :
    SameOutcome Json.Alike (patch.apply x) (patch.apply y) := by
  induction patch generalizing x y with
  | nil => exact .ok h
  | cons operation patch ih =>
      obtain ⟨hfirst, hrest⟩ := List.forall_mem_cons.1 hsteady
      exact (Operation.apply_alike hfirst h).bind fun _ _ hnext => ih hrest hnext

/-- Where a patch applies to a value and not to an alike one, a test that compares with a number has
failed. -/
theorem apply_of_alike (h : x.Alike y) {x' : Json} (hx : patch.apply x = .ok x') :
    (∃ y', patch.apply y = .ok y' ∧ x'.Alike y') ∨
      ∃ path value, .test path value ∈ patch ∧ value.numberFree = false ∧
        patch.apply y = .error (.testFailed path) := by
  induction patch generalizing x y with
  | nil => exact .inl ⟨y, rfl, Except.ok.inj hx ▸ h⟩
  | cons operation patch ih =>
      obtain ⟨next, hnext, hx⟩ := bind_eq_ok_iff.1 hx
      rcases Operation.apply_of_alike h hnext with
        ⟨next', hnext', halike⟩ | ⟨path, value, rfl, hnumber, hfails⟩
      · rw [apply_cons, hnext']
        rcases ih halike hx with hsame | ⟨path, value, hmem, hfails⟩
        · exact .inl hsame
        · exact .inr ⟨path, value, List.mem_cons_of_mem _ hmem, hfails⟩
      · rw [apply_cons, hfails]
        exact .inr ⟨path, value, List.mem_cons_self, hnumber, rfl⟩

end Patch

end AnchoredDid
