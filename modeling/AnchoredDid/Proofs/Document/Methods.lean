import AnchoredDid.Proofs.Document.Alike
import Mathlib.Data.List.Nodup

/-!
# One method to an id

A document is refused if two of its listed methods have the same absolute id. Methods that a
relationship holds itself are not compared with anything, so `Document.Apart` asks for the rest:
then no two methods share an id, and each is found under its own (`Document.method?_of_mem`).
-/

namespace AnchoredDid

theorem Method.id_of_ofFields? {value : Json} {others : List (Option Json)} {m : Method}
    (h : ofFields? (some value :: others) = some m) : value.string? = some m.id := by
  rw [ofFields?.eq_def] at h
  split at h
  · next heq =>
    cases heq
    obtain ⟨name, hname, hfields⟩ := Option.bind_eq_some_iff.1 h
    obtain ⟨_, -, hfields⟩ := Option.bind_eq_some_iff.1 hfields
    obtain ⟨_, -, hfields⟩ := Option.bind_eq_some_iff.1 hfields
    obtain ⟨_, -, hfields⟩ := Option.bind_eq_some_iff.1 hfields
    rw [hname, ← Option.some.inj hfields]
  · cases h

namespace Document

variable {d : Document} {id reference : String} {seen : List String} {entry : Json} {m : Method}

/-- The methods that are listed apart from the relationships. -/
def listed (d : Document) : List Method :=
  (d.value.elements "verificationMethod").filterMap (readMethod? d.id)

/-- The methods that a relationship holds itself. -/
def held (d : Document) (name : String) : List Method :=
  ((d.value.elements name).filter Json.isObject).filterMap (readMethod? d.id)

theorem methods_eq (d : Document) : d.methods = d.listed ++ relationships.flatMap d.held := rfl

theorem readMethod?_eq_some (h : readMethod? id entry = some m) :
    ∃ written, Method.ofJson? entry = some written ∧ m.id = absoluteRef id written.id := by
  obtain ⟨written, hwritten, rfl⟩ := Option.map_eq_some_iff.1 h
  exact ⟨written, hwritten, rfl⟩

/-- A method that is read from an object has the id in it. -/
theorem id_of_readMethod? (hid : (entry.member? "id").bind Json.string? = some reference)
    (h : readMethod? id entry = some m) : m.id = absoluteRef id reference := by
  obtain ⟨written, hwritten, hm⟩ := readMethod?_eq_some h
  cases entry with
  | object members =>
      obtain ⟨value, hvalue, hname⟩ := Option.bind_eq_some_iff.1 hid
      have hfind : Members.find? "id" members = some value := hvalue
      rw [Method.ofJson?_eq_bind, Json.fields?, List.map_cons, hfind, Option.bind_some] at hwritten
      rw [hm, Option.some.inj ((Method.id_of_ofFields? hwritten).symm.trans hname)]
  | _ => cases hid

/-- An entry that holds a method refers to it. -/
theorem id_of_entryRef? (hobject : entry.isObject = true)
    (href : entryRef? id entry = some reference)
    (h : readMethod? id entry = some m) : m.id = reference := by
  cases entry with
  | object members =>
      obtain ⟨written, hwritten, rfl⟩ := Option.map_eq_some_iff.1 href
      have hid : ((Json.object members).member? "id").bind Json.string? = some written := hwritten
      exact id_of_readMethod? hid h
  | _ => cases hobject

theorem checkMethods_cons (h : checkMethods id seen (entry :: rest) = .ok ()) :
    ∃ reference, (entry.member? "id").bind Json.string? = some reference ∧
      absoluteRef id reference ∉ seen ∧
      checkMethods id (absoluteRef id reference :: seen) rest = .ok () := by
  rw [checkMethods] at h
  split at h
  · cases h
  · next reference href =>
    split at h
    · cases h
    · split at h
      · cases h
      · next hseen =>
        exact ⟨reference, href, by simpa using hseen, h⟩

/-- Entries that pass the check have different ids, and none that was seen before them. -/
theorem nodup_of_checkMethods {entries : List Json} (h : checkMethods id seen entries = .ok ()) :
    ((entries.filterMap (readMethod? id)).map Method.id).Nodup ∧
      ∀ m ∈ entries.filterMap (readMethod? id), m.id ∉ seen := by
  induction entries generalizing seen with
  | nil => exact ⟨.nil, nofun⟩
  | cons entry rest ih =>
      obtain ⟨reference, href, hunseen, hrest⟩ := checkMethods_cons h
      obtain ⟨hnodup, hfree⟩ := ih hrest
      have hlater : ∀ m ∈ rest.filterMap (readMethod? id), m.id ∉ seen := fun m hm hseen =>
        hfree m hm (List.mem_cons_of_mem _ hseen)
      cases hread : readMethod? id entry with
      | none =>
          rw [List.filterMap_cons_none hread]
          exact ⟨hnodup, hlater⟩
      | some m =>
          have hid := id_of_readMethod? href hread
          rw [List.filterMap_cons_some hread, List.map_cons, List.nodup_cons, hid]
          refine ⟨⟨?_, hnodup⟩, List.forall_mem_cons.2 ⟨hid ▸ hunseen, hlater⟩⟩
          intro hmem
          obtain ⟨other, hother, hsame⟩ := List.mem_map.1 hmem
          exact hfree other hother (hsame ▸ List.mem_cons_self)

/-- What the check of a document asks of its listed methods. -/
theorem nodup_listed (d : Document) : (d.listed.map Method.id).Nodup := by
  have hchecked := d.checked
  rw [check_eq] at hchecked
  split at hchecked
  · cases hchecked
  split at hchecked
  · cases hchecked
  next id hid =>
    split at hchecked
    · cases hchecked
    split at hchecked
    · cases hchecked
    have hsame : d.id = id := by rw [Document.id, hid, Option.getD_some]
    rw [listed, hsame]
    exact (nodup_of_checkMethods hchecked).1

/-- Every method that a relationship holds itself has an id of its own. -/
structure Apart (d : Document) : Prop where
  nodup : ((relationships.flatMap d.held).map Method.id).Nodup
  unlisted : ∀ m ∈ relationships.flatMap d.held, m.id ∉ d.listed.map Method.id

/-- No two methods share an id. -/
theorem Apart.nodup_methods (h : d.Apart) : (d.methods.map Method.id).Nodup := by
  rw [methods_eq, List.map_append]
  refine d.nodup_listed.append h.nodup fun shared hlisted hheld => ?_
  obtain ⟨m, hm, rfl⟩ := List.mem_map.1 hheld
  exact h.unlisted m hm hlisted

theorem Apart.eq_of_id_eq (h : d.Apart) {m other : Method} (hm : m ∈ d.methods)
    (hother : other ∈ d.methods) (hid : m.id = other.id) : m = other :=
  List.inj_on_of_nodup_map h.nodup_methods hm hother hid

/-- A method is found under every reference to its id. -/
theorem Apart.method?_of_mem (h : d.Apart) (hm : m ∈ d.methods)
    (hreference : d.absolute reference = m.id) : d.method? reference = some m := by
  have hsome : (d.method? reference).isSome := by
    rw [method?, List.find?_isSome]
    exact ⟨m, hm, by simp [hreference]⟩
  obtain ⟨found, hfound⟩ := Option.isSome_iff_exists.1 hsome
  have hid : found.id = d.absolute reference := by simpa using List.find?_some hfound
  rw [hfound, h.eq_of_id_eq (List.mem_of_find?_eq_some hfound) hm (hid.trans hreference)]

theorem mem_methods_of_mem_held {name : String} (hname : name ∈ relationships)
    (hm : m ∈ d.held name) : m ∈ d.methods := by
  rw [methods_eq]
  exact List.mem_append_right _ (List.mem_flatMap.2 ⟨name, hname, hm⟩)

/-- The id of a method is absolute. -/
theorem absolute_id (anchored : d.Anchored) (hm : m ∈ d.methods) : d.absolute m.id = m.id := by
  have hread : ∃ entry, readMethod? d.id entry = some m := by
    rw [methods_eq] at hm
    rcases List.mem_append.1 hm with hlisted | hheld
    · obtain ⟨entry, -, hentry⟩ := List.mem_filterMap.1 hlisted
      exact ⟨entry, hentry⟩
    · obtain ⟨name, -, hname⟩ := List.mem_flatMap.1 hheld
      obtain ⟨entry, -, hentry⟩ := List.mem_filterMap.1 hname
      exact ⟨entry, hentry⟩
  obtain ⟨entry, hentry⟩ := hread
  obtain ⟨written, -, hid⟩ := readMethod?_eq_some hentry
  rw [hid]
  exact absolute_absolute anchored written.id

end Document

end AnchoredDid
