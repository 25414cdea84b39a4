import AnchoredDid.Proofs.Bytes.Hex
import AnchoredDid.Proofs.Json.Ordered
import Mathlib.Data.List.Forall2

/-!
# Fields are written as they were read

A string or a number that was read is the whole of the value, so writing it gives the value back. A
digest loses the case of its digits, and an optional field the difference between missing and null.
-/

namespace AnchoredDid

namespace Json

variable {value : Json} {α β : Type}

theorem string_of_string? {s : String} (h : value.string? = some s) : .string s = value := by
  cases value with
  | string t => rw [Option.some.inj h]
  | _ => cases h

theorem ofNat_of_nat? {n : Nat} (h : value.nat? = some n) : ofNat n = value := by
  cases value with
  | int m =>
      rw [nat?] at h
      split at h
      · next hm =>
        rw [ofNat, ← Option.some.inj h, Int.toNat_of_nonneg hm]
      · cases h
  | _ => cases h

theorem ofDigest_of_digest? {d : Digest} (h : digest? value = some d)
    (lower : ∀ text, value.string? = some text → Hex.IsLower text) : ofDigest d = value := by
  obtain ⟨text, htext, hread⟩ := Option.bind_eq_some_iff.1 h
  have hencode : d.toHex = text := by
    rw [Digest.ofHex] at hread
    split at hread
    · cases hread
    · next bytes hbytes =>
      split at hread
      · cases hread
        exact Hex.encode_of_decode hbytes (lower text htext)
      · cases hread
  rw [ofDigest, hencode, string_of_string? htext]

theorem map_string_of_optionally {value : Option Json} {s : Option String}
    (h : optionally string? value = some s) (present : value ≠ some .null) :
    s.map .string = value := by
  cases value with
  | none =>
      cases h
      rfl
  | some v =>
      rw [optionally] at h
      · obtain ⟨t, ht, rfl⟩ := Option.map_eq_some_iff.1 h
        rw [Option.map_some, string_of_string? ht]
      · rintro rfl
        exact present rfl

theorem mapM_eq_some {read : β → Option α} {items : List β} {xs : List α}
    (h : items.mapM read = some xs) : List.Forall₂ (fun x v => read v = some x) xs items := by
  induction items generalizing xs with
  | nil =>
      cases h
      exact .nil
  | cons v items ih =>
      rw [List.mapM_cons] at h
      obtain ⟨x, hx, h⟩ := Option.bind_eq_some_iff.1 h
      obtain ⟨rest, hrest, h⟩ := Option.bind_eq_some_iff.1 h
      cases h
      exact .cons hx (ih hrest)

theorem listOf?_eq_some {read : Json → Option α} {xs : List α} (h : listOf? read value = some xs) :
    ∃ items, value = .array items ∧ List.Forall₂ (fun x v => read v = some x) xs items := by
  obtain ⟨items, hitems, hread⟩ := Option.bind_eq_some_iff.1 h
  cases value with
  | array found =>
      cases hitems
      exact ⟨items, rfl, mapM_eq_some hread⟩
  | _ => cases hitems

theorem map_string_of_forall₂ {texts : List String} {items : List Json}
    (h : List.Forall₂ (fun s v => string? v = some s) texts items) : texts.map .string = items := by
  induction h with
  | nil => rfl
  | cons hfirst _ ih => rw [List.map_cons, string_of_string? hfirst, ih]

/-- The fields of a record in order are in order. -/
theorem ordered_of_fields? {names : List String} {required : Nat} {record : Json}
    {values : List (Option Json)} (ordered : record.Ordered)
    (h : record.fields? names required = some values) : ∀ x, some x ∈ values → x.Ordered := by
  intro x hx
  cases record with
  | object members =>
      rw [← Option.some.inj h] at hx
      obtain ⟨name, -, hfound⟩ := List.mem_map.1 hx
      exact ordered.of_mem_object _ (Members.mem_of_find? hfound)
  | array items =>
      rw [fields?] at h
      split at h
      · rw [← Option.some.inj h] at hx
        rcases List.mem_append.1 hx with hx | hx
        · obtain ⟨y, hy, hsame⟩ := List.mem_map.1 hx
          exact Option.some.inj hsame ▸ ordered.of_mem_array y hy
        · cases List.eq_of_mem_replicate hx
      · cases h
  | _ => cases h

end Json

end AnchoredDid
