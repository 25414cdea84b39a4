import AnchoredDid.Proofs.Document
import AnchoredDid.Proofs.Json.Alike

/-!
# Documents that hashes do not tell apart

A document is read through its strings, its flags and the shape of its containers. So of two values
that are alike both are documents or both are refused for the same reason
(`Document.check_eq_of_alike`), and as documents they have the same id, the same methods and the
same relationships.
-/

namespace AnchoredDid

namespace Json

section Lifting

variable {α β γ : Type} {R : α → β → Prop} {f : α → Option γ} {g : β → Option γ}

theorem bind_eq_of_rel {a : Option α} {b : Option β} (h : Option.Rel R a b)
    (hfg : ∀ x y, R x y → f x = g y) : a.bind f = b.bind g := by
  cases h with
  | none => rfl
  | some hxy => exact hfg _ _ hxy

theorem any_eq_of_rel {a : Option α} {b : Option β} {p : α → Bool} {q : β → Bool}
    (h : Option.Rel R a b) (hpq : ∀ x y, R x y → p x = q y) : a.any p = b.any q := by
  cases h with
  | none => rfl
  | some hxy => exact hpq _ _ hxy

theorem filterMap_eq_of_forall₂ {xs : List α} {ys : List β} (h : List.Forall₂ R xs ys)
    (hfg : ∀ x y, R x y → f x = g y) : xs.filterMap f = ys.filterMap g := by
  induction h with
  | nil => rfl
  | cons hxy _ ih => rw [List.filterMap_cons, List.filterMap_cons, hfg _ _ hxy, ih]

end Lifting

theorem fields?_of_isNumber {x : Json} (h : x.isNumber = true) (names : List String)
    (required : Nat) : x.fields? names required = none :=
  isNumber_cases h (fun _ => rfl) fun _ => rfl

namespace Alike

variable {x y : Json}

theorem text?_eq (h : Alike x y) (name : String) :
    (x.member? name).bind string? = (y.member? name).bind string? :=
  bind_eq_of_rel (h.member?_rel name) fun _ _ => string?_eq

theorem isNone_array?_eq (h : Alike x y) : x.array?.isNone = y.array?.isNone := by
  have harray := h.array?_rel
  generalize x.array? = items, y.array? = items' at harray ⊢
  cases harray <;> rfl

theorem flag?_eq (h : Alike x y) (name : String) :
    (x.member? name).bind bool? = (y.member? name).bind bool? :=
  bind_eq_of_rel (h.member?_rel name) fun _ _ => bool?_eq

/-- The fields of a record are found, or missing, alike. -/
theorem fields?_rel (h : Alike x y) (names : List String) (required : Nat) :
    Option.Rel (List.Forall₂ (Option.Rel Alike)) (x.fields? names required)
      (y.fields? names required) := by
  cases h with
  | number left right _ =>
      rw [fields?_of_isNumber left, fields?_of_isNumber right]
      exact .none
  | object each =>
      refine .some ?_
      rw [List.forall₂_map_left_iff, List.forall₂_map_right_iff, List.forall₂_same]
      exact fun name _ => Members.find?_rel each name
  | array each =>
      rw [fields?, fields?, each.length_eq]
      split
      · refine .some (List.rel_append ?_ (List.forall₂_same.2 ?_))
        · rw [List.forall₂_map_left_iff, List.forall₂_map_right_iff]
          exact each.imp fun _ _ => .some
        · intro v hv
          rw [List.eq_of_mem_replicate hv]
          exact .none
      · exact .none
  | _ => exact .none

end Alike

/-- An optional string is read alike. -/
theorem optionally_string?_eq {a b : Option Json} (h : Option.Rel Alike a b) :
    optionally string? a = optionally string? b := by
  cases h with
  | none => rfl
  | @some x y hxy =>
      cases hxy with
      | number left right _ =>
          rw [optionally, optionally, string?_of_isNumber left, string?_of_isNumber right]
          · rintro rfl
            cases right
          · rintro rfl
            cases left
      | _ => rfl

end Json

namespace Method

/-- What a record of a method says, from its fields. -/
def ofFields? : List (Option Json) → Option Method
  | [some id, some type, some controller, multibase] => do
    some ⟨← id.string?, ← type.string?, ← controller.string?,
      ← Json.optionally Json.string? multibase⟩
  | _ => none

theorem ofJson?_eq_bind (value : Json) : ofJson? value =
    (value.fields? ["id", "type", "controller", "publicKeyMultibase"] 4).bind ofFields? := by
  rw [ofJson?]
  congr 1

theorem ofFields?_eq_of_rel {fields others : List (Option Json)}
    (h : List.Forall₂ (Option.Rel Json.Alike) fields others) :
    ofFields? fields = ofFields? others := by
  cases h with
  | nil => rfl
  | cons hid h =>
      cases hid with
      | none => rfl
      | some hid =>
          cases h with
          | nil => rfl
          | cons htype h =>
              cases htype with
              | none => rfl
              | some htype =>
                  cases h with
                  | nil => rfl
                  | cons hcontroller h =>
                      cases hcontroller with
                      | none => rfl
                      | some hcontroller =>
                          cases h with
                          | nil => rfl
                          | cons hmultibase h =>
                              cases h with
                              | cons _ _ => rfl
                              | nil =>
                                  rw [ofFields?, ofFields?, hid.string?_eq, htype.string?_eq,
                                    hcontroller.string?_eq, Json.optionally_string?_eq hmultibase]

theorem ofJson?_eq_of_alike {x y : Json} (h : x.Alike y) : ofJson? x = ofJson? y := by
  rw [ofJson?_eq_bind, ofJson?_eq_bind]
  exact Json.bind_eq_of_rel (h.fields?_rel _ _) fun _ _ => ofFields?_eq_of_rel

end Method

namespace Document

theorem checkMethods_eq_of_alike {xs ys : List Json} (h : List.Forall₂ Json.Alike xs ys)
    (id : String) (seen : List String) : checkMethods id seen xs = checkMethods id seen ys := by
  induction h generalizing seen with
  | nil => rfl
  | cons hxy _ ih => rw [checkMethods, checkMethods, hxy.text?_eq, hxy.text?_eq]; simp only [ih]

theorem check_eq_of_alike {x y : Json} (h : x.Alike y) : check x = check y := by
  have hflag : (x.member? "deactivated").any (fun v => v.bool?.isNone) =
      (y.member? "deactivated").any (fun v => v.bool?.isNone) :=
    Json.any_eq_of_rel (h.member?_rel _) fun _ _ hxy => by rw [hxy.bool?_eq]
  have harray : ∀ name, (x.member? name).any (fun v => v.array?.isNone) =
      (y.member? name).any (fun v => v.array?.isNone) := fun name =>
    Json.any_eq_of_rel (h.member?_rel name) fun _ _ hxy => hxy.isNone_array?_eq
  simp only [check_eq, h.isObject_eq, h.text?_eq, hflag, harray,
    checkMethods_eq_of_alike (h.elements_rel "verificationMethod")]

theorem entryRef?_of_isNumber {x : Json} (h : x.isNumber = true) (id : String) :
    entryRef? id x = none :=
  Json.isNumber_cases h (fun _ => rfl) fun _ => rfl

theorem entryRef?_eq_of_alike {x y : Json} (id : String) (h : x.Alike y) :
    entryRef? id x = entryRef? id y := by
  cases h with
  | number left right _ => rw [entryRef?_of_isNumber left, entryRef?_of_isNumber right]
  | object each =>
      exact congrArg (Option.map (absoluteRef id))
        (Json.bind_eq_of_rel (Members.find?_rel each "id") fun _ _ => Json.Alike.string?_eq)
  | _ => rfl

variable {d₁ d₂ : Document} (h : d₁.value.Alike d₂.value)

include h

theorem id_eq_of_alike : d₁.id = d₂.id := by
  rw [id, id, h.text?_eq]

theorem isDeactivated_eq_of_alike : d₁.isDeactivated = d₂.isDeactivated := by
  rw [isDeactivated, isDeactivated, h.flag?_eq]

theorem relationship_eq_of_alike (name : String) : d₁.relationship name = d₂.relationship name := by
  rw [relationship, relationship, id_eq_of_alike h]
  exact Json.filterMap_eq_of_forall₂ (h.elements_rel name) fun _ _ => entryRef?_eq_of_alike _

theorem canInvoke_eq_of_alike (reference : String) :
    d₁.canInvoke reference = d₂.canInvoke reference := by
  rw [canInvoke, canInvoke, relationship_eq_of_alike h, absolute, absolute, id_eq_of_alike h]

theorem methods_eq_of_alike : d₁.methods = d₂.methods := by
  have hread : ∀ x y : Json, x.Alike y → readMethod? d₁.id x = readMethod? d₂.id y := by
    intro x y hxy
    rw [readMethod?, readMethod?, Method.ofJson?_eq_of_alike hxy, id_eq_of_alike h]
  have hembedded : ∀ name, ((d₁.value.elements name).filter Json.isObject).filterMap
      (readMethod? d₁.id) = ((d₂.value.elements name).filter Json.isObject).filterMap
      (readMethod? d₂.id) := by
    intro name
    refine Json.filterMap_eq_of_forall₂ (List.rel_filter ?_ (h.elements_rel name)) hread
    intro x y hxy
    exact Eq.congr_left hxy.isObject_eq
  rw [methods, methods, Json.filterMap_eq_of_forall₂ (h.elements_rel _) hread]
  simp only [hembedded]

theorem method?_eq_of_alike (reference : String) : d₁.method? reference = d₂.method? reference := by
  rw [method?, method?, methods_eq_of_alike h, absolute, absolute, id_eq_of_alike h]

end Document

end AnchoredDid
