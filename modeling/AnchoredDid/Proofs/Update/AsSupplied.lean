import AnchoredDid.Proofs.Patch.AsSupplied
import AnchoredDid.Proofs.Update.RoundTrip

/-!
# Updates as they were supplied

What is hashed and signed is an update as it is written, not the value that it was read from. The
two are one if the value is verbatim: its operations are objects with no members of other names, its
hashes are in lower case, and neither an empty context nor a null stands for what is missing.
Further members of the update and of its proof are kept in any case, those of an operation are lost
(`Update.hash_as_supplied`).
-/

namespace AnchoredDid

variable {raw : Json}

namespace Json

/-- An empty context is left out, so it must not have been there. -/
theorem written_of_context {value : Option Json} {context : List String}
    (h : orElse [] (listOf? string?) value = some context) (hnonempty : value ≠ some (.array [])) :
    (if context.isEmpty then none else some (.array (context.map .string))) = value := by
  cases value with
  | none =>
      cases h
      rfl
  | some v =>
      obtain ⟨items, rfl, hitems⟩ := listOf?_eq_some h
      have hwritten := map_string_of_forall₂ hitems
      cases hitems with
      | nil => exact absurd rfl hnonempty
      | cons _ _ => rw [hwritten, List.isEmpty_cons, if_neg Bool.false_ne_true]

end Json

namespace UnsignedUpdate

variable {u : UnsignedUpdate} {taken : List String} {members : Members Json}

theorem read?_eq_some (h : read? taken raw = some u) : ∃ members, raw = .object members ∧
    Json.orElse [] (Json.listOf? Json.string?) (Members.find? "@context" members) = some u.context ∧
    (Members.find? "patch" members).bind Patch.ofJson? = some u.patch ∧
    (Members.find? "sourceHash" members).bind Json.digest? = some u.sourceHash ∧
    (Members.find? "targetHash" members).bind Json.digest? = some u.targetHash ∧
    (Members.find? "sourceVersionId" members).bind Json.nat? = some u.sourceVersion ∧
    u.extra = Members.without taken members := by
  obtain ⟨members, hmembers, h⟩ := Option.bind_eq_some_iff.1 h
  obtain ⟨context, hcontext, h⟩ := Option.bind_eq_some_iff.1 h
  obtain ⟨patch, hpatch, h⟩ := Option.bind_eq_some_iff.1 h
  obtain ⟨source, hsource, h⟩ := Option.bind_eq_some_iff.1 h
  obtain ⟨target, htarget, h⟩ := Option.bind_eq_some_iff.1 h
  obtain ⟨version, hversion, h⟩ := Option.bind_eq_some_iff.1 h
  cases h
  cases raw with
  | object found =>
      cases hmembers
      exact ⟨members, rfl, hcontext, hpatch, hsource, htarget, hversion, rfl⟩
  | _ => cases hmembers

/-- Nothing about the fields is lost when they are read. -/
structure Verbatim (raw : Json) : Prop where
  context : raw.member? "@context" ≠ some (.array [])
  operations : ∀ v ∈ raw.elements "patch", Operation.Plain v
  hashes : ∀ name ∈ ["sourceHash", "targetHash"], ∀ text,
    (raw.member? name).bind Json.string? = some text → Hex.IsLower text

theorem find?_members (u : UnsignedUpdate) (name : String) :
    Members.find? name u.members = Members.last? name u.pairs :=
  Members.find?_ofList _

theorem sorted_members (u : UnsignedUpdate) : u.members.Sorted :=
  Members.sorted_ofList _

/-- A digest under a name of lower-case digits is the whole of the member. -/
theorem Verbatim.written_of_digest (verbatim : Verbatim (.object members)) {name : String}
    (hname : name ∈ ["sourceHash", "targetHash"]) {d : Digest}
    (h : (Members.find? name members).bind Json.digest? = some d) :
    some (Json.ofDigest d) = Members.find? name members := by
  obtain ⟨value, hvalue, hread⟩ := Option.bind_eq_some_iff.1 h
  rw [hvalue, Json.ofDigest_of_digest? hread fun text htext => verbatim.hashes name hname text ?_]
  exact Option.bind_eq_some_iff.2 ⟨value, hvalue, htext⟩

/-- The fields are written as they were supplied. -/
theorem Verbatim.find?_members (verbatim : Verbatim (.object members))
    (ordered : Json.Ordered (.object members)) (h : read? taken (.object members) = some u)
    {name : String} (hname : name ∈ fieldNames) :
    Members.find? name u.members = Members.find? name members := by
  obtain ⟨_, hmembers, hcontext, hpatch, hsource, htarget, hversion, -⟩ := read?_eq_some h
  cases hmembers
  have hwrittenContext := Json.written_of_context hcontext verbatim.context
  obtain ⟨patch, hpatchFound, hpatchRead⟩ := Option.bind_eq_some_iff.1 hpatch
  obtain ⟨version, hversionFound, hversionRead⟩ := Option.bind_eq_some_iff.1 hversion
  have hplain : ∀ items, patch = .array items → ∀ v ∈ items, Operation.Plain v := by
    rintro items rfl v hv
    refine verbatim.operations v ?_
    rw [Json.elements, Json.member?, hpatchFound]
    exact hv
  have hwrittenPatch := Patch.toJson_of_plain
    (ordered.of_mem_object _ (Members.mem_of_find? hpatchFound)) hpatchRead hplain
  rw [UnsignedUpdate.find?_members]
  simp only [fieldNames, List.mem_cons, List.not_mem_nil, or_false] at hname
  rcases hname with rfl | rfl | rfl | rfl | rfl
  · simpa [pairs] using hwrittenContext
  · simp [pairs, hpatchFound, hwrittenPatch]
  · simpa [pairs] using verbatim.written_of_digest (by simp) hsource
  · simpa [pairs] using verbatim.written_of_digest (by simp) htarget
  · simp [pairs, hversionFound, Json.ofNat_of_nat? hversionRead]

/-- If what is written cannot be told from what was supplied, nothing was lost. -/
theorem verbatim_of_rel (h : read? taken (.object members) = some u)
    (hrel : ∀ name ∈ fieldNames, Option.Rel Json.Alike (Members.find? name u.members)
      (Members.find? name members)) : Verbatim (.object members) := by
  obtain ⟨_, hmembers, hcontext, hpatch, hsource, htarget, -, -⟩ := read?_eq_some h
  cases hmembers
  have hdigest : ∀ name ∈ fieldNames, ∀ d : Digest,
      Members.find? name u.members = some (Json.ofDigest d) → ∀ text,
        (Members.find? name members).bind Json.string? = some text → Hex.IsLower text := by
    intro name hname d hwritten text htext
    obtain ⟨value, hvalue, hstring⟩ := Option.bind_eq_some_iff.1 htext
    have hsame := hrel name hname
    rw [hwritten, hvalue] at hsame
    cases hsame with
    | some halike =>
        rw [← halike.string?_eq] at hstring
        exact Option.some.inj hstring ▸ Hex.isLower_encode d.bytes
  refine ⟨fun hempty => ?_, fun v hv => ?_, ?_⟩
  · have hfound : Members.find? "@context" members = some (.array []) := hempty
    have hsame := hrel "@context" (by decide)
    rw [hfound] at hcontext hsame
    have hnil : u.context = [] := (Option.some.inj hcontext).symm
    rw [find?_members] at hsame
    simp [pairs, hnil] at hsame
  · obtain ⟨patch, hfound, hread⟩ := Option.bind_eq_some_iff.1 hpatch
    obtain ⟨items, rfl, -⟩ := Patch.ofJson?_eq_some hread
    have hsame := hrel "patch" (by decide)
    rw [find?_members, hfound] at hsame
    rw [Json.elements, Json.member?, hfound] at hv
    have hpatchMember : Members.last? "patch" u.pairs = some u.patch.toJson := by simp [pairs]
    rw [hpatchMember] at hsame
    cases hsame with
    | some halike => exact Patch.plain_of_alike hread halike v hv
  · simp only [List.forall_mem_cons, List.not_mem_nil, false_implies, implies_true, and_true]
    exact ⟨hdigest "sourceHash" (by decide) u.sourceHash (by rw [find?_members]; simp [pairs]),
      hdigest "targetHash" (by decide) u.targetHash (by rw [find?_members]; simp [pairs])⟩

/-- What holds of the texts, of the patch and of the version holds of every known member. -/
theorem of_mem_members {P : Json → Prop} (texts : ∀ text, P (.string text))
    (context : P (.array (u.context.map .string))) (patch : P u.patch.toJson)
    (version : P (Json.ofNat u.sourceVersion)) : ∀ m ∈ u.members, P m.2 := by
  have hall : ∀ m ∈ u.pairs, P m.2 := by
    simp only [pairs, List.forall_mem_append, List.forall_mem_cons, List.not_mem_nil, false_implies,
      implies_true, and_true]
    refine ⟨?_, patch, texts _, texts _, version⟩
    split
    · exact List.forall_mem_nil _
    · exact List.forall_mem_singleton.2 context
  exact fun m hm => hall m (Members.mem_of_mem_ofList hm)

theorem ordered_members (ordered : Json.Ordered (.object members))
    (h : read? taken (.object members) = some u) : ∀ m ∈ u.members, m.2.Ordered := by
  obtain ⟨_, hmembers, -, hpatch, -⟩ := read?_eq_some h
  cases hmembers
  obtain ⟨patch, hfound, hread⟩ := Option.bind_eq_some_iff.1 hpatch
  have hordered := Patch.ordered_toJson
    (ordered.of_mem_object _ (Members.mem_of_find? hfound)) hread
  exact of_mem_members .string (.array (List.forall_mem_map.2 fun text _ => .string text)) hordered
    (.int _)

end UnsignedUpdate

namespace Proof

variable {p : Proof} {members : Members Json}

/-- The names of the members that may be missing. -/
def optionalNames : List String := ["capability", "capabilityAction", "proofValue"]

/-- Nothing about the fields is lost when they are read: what is missing is not null. -/
def Verbatim (value : Json) : Prop :=
  ∀ name ∈ optionalNames, value.member? name ≠ some .null

theorem ofJson?_eq_some {value : Json} (h : ofJson? value = some p) :
    ∃ members, value = .object members ∧
      (∀ name text, (name, text) ∈ [("type", p.type), ("cryptosuite", p.suite),
        ("verificationMethod", p.method), ("proofPurpose", p.purpose)] →
          Members.find? name members = some (.string text)) ∧
      (∀ name text, (name, text) ∈ [("capability", p.capability), ("capabilityAction", p.action),
        ("proofValue", p.signature)] →
          Json.optionally Json.string? (Members.find? name members) = some text) ∧
      p.extra = Members.without fieldNames members := by
  obtain ⟨members, hmembers, h⟩ := Option.bind_eq_some_iff.1 h
  obtain ⟨type, htype, h⟩ := Option.bind_eq_some_iff.1 h
  obtain ⟨suite, hsuite, h⟩ := Option.bind_eq_some_iff.1 h
  obtain ⟨method, hmethod, h⟩ := Option.bind_eq_some_iff.1 h
  obtain ⟨purpose, hpurpose, h⟩ := Option.bind_eq_some_iff.1 h
  obtain ⟨capability, hcapability, h⟩ := Option.bind_eq_some_iff.1 h
  obtain ⟨action, haction, h⟩ := Option.bind_eq_some_iff.1 h
  obtain ⟨signature, hsignature, h⟩ := Option.bind_eq_some_iff.1 h
  cases h
  have htext : ∀ {name text}, (Members.find? name members).bind Json.string? = some text →
      Members.find? name members = some (.string text) := by
    intro name text h
    obtain ⟨value, hvalue, hread⟩ := Option.bind_eq_some_iff.1 h
    rw [hvalue, Json.string_of_string? hread]
  cases value with
  | object found =>
      cases hmembers
      refine ⟨members, rfl, ?_, ?_, rfl⟩
      · simp only [List.mem_cons, List.not_mem_nil, or_false, Prod.mk.injEq]
        rintro name text (⟨rfl, rfl⟩ | ⟨rfl, rfl⟩ | ⟨rfl, rfl⟩ | ⟨rfl, rfl⟩)
        · exact htext htype
        · exact htext hsuite
        · exact htext hmethod
        · exact htext hpurpose
      · simp only [List.mem_cons, List.not_mem_nil, or_false, Prod.mk.injEq]
        rintro name text (⟨rfl, rfl⟩ | ⟨rfl, rfl⟩ | ⟨rfl, rfl⟩)
        · exact hcapability
        · exact haction
        · exact hsignature
  | _ => cases hmembers

/-- The fields are written as they were supplied. -/
theorem Verbatim.last?_pairs (verbatim : Verbatim (.object members))
    (h : ofJson? (.object members) = some p) {name : String} (hname : name ∈ fieldNames) :
    Members.last? name p.pairs = Members.find? name members := by
  obtain ⟨_, hmembers, htext, hoptional, -⟩ := ofJson?_eq_some h
  cases hmembers
  have hpresent : ∀ {name : String} {text : Option String}, name ∈ optionalNames →
      Json.optionally Json.string? (Members.find? name members) = some text →
        text.map .string = Members.find? name members := fun hname hread =>
    Json.map_string_of_optionally hread (verbatim _ hname)
  simp only [fieldNames, List.mem_cons, List.not_mem_nil, or_false] at hname
  rcases hname with rfl | rfl | rfl | rfl | rfl | rfl | rfl
  · rw [htext "type" p.type (by simp)]
    simp [pairs]
  · rw [htext "cryptosuite" p.suite (by simp)]
    simp [pairs]
  · rw [htext "verificationMethod" p.method (by simp)]
    simp [pairs]
  · rw [htext "proofPurpose" p.purpose (by simp)]
    simp [pairs]
  · rw [← hpresent (by decide) (hoptional "capability" p.capability (by simp))]
    simp [pairs]
  · rw [← hpresent (by decide) (hoptional "capabilityAction" p.action (by simp))]
    simp [pairs]
  · rw [← hpresent (by decide) (hoptional "proofValue" p.signature (by simp))]
    simp [pairs]

/-- If what is written cannot be told from what was supplied, nothing was lost. -/
theorem verbatim_of_rel (h : ofJson? (.object members) = some p)
    (hrel : ∀ name ∈ fieldNames, Option.Rel Json.Alike (Members.last? name p.pairs)
      (Members.find? name members)) : Verbatim (.object members) := by
  obtain ⟨_, hmembers, -, hoptional, -⟩ := ofJson?_eq_some h
  cases hmembers
  have habsent : ∀ {name text},
      Json.optionally Json.string? (Members.find? name members) = some text →
      Members.last? name p.pairs = text.map .string → name ∈ fieldNames →
        Members.find? name members ≠ some .null := by
    intro name text hread hwritten hname hnull
    have hsame := hrel name hname
    rw [hwritten, hnull] at hsame
    rw [hnull] at hread
    cases hread
    cases hsame
  simp only [Verbatim, optionalNames, List.forall_mem_cons, List.not_mem_nil, false_implies,
    implies_true, and_true]
  exact ⟨habsent (hoptional "capability" p.capability (by simp)) (by simp [pairs]) (by decide),
    habsent (hoptional "capabilityAction" p.action (by simp)) (by simp [pairs]) (by decide),
    habsent (hoptional "proofValue" p.signature (by simp)) (by simp [pairs]) (by decide)⟩

theorem toJson_eq (p : Proof) :
    p.toJson = .object (Members.override (Members.ofList p.pairs) p.extra) := rfl

theorem known_ofList_pairs (p : Proof) : ∀ m ∈ Members.ofList p.pairs, m.1 ∈ fieldNames :=
  fun m hm => p.known_pairs m (Members.mem_of_mem_ofList hm)

theorem Verbatim.toJson_eq (verbatim : Verbatim (.object members)) (sorted : members.Sorted)
    (h : ofJson? (.object members) = some p) : p.toJson = .object members := by
  obtain ⟨_, hmembers, -, -, hextra⟩ := ofJson?_eq_some h
  cases hmembers
  rw [Proof.toJson_eq, hextra, Members.override_without (Members.sorted_ofList _) sorted
    p.known_ofList_pairs (List.forall_mem_nil _) fun name hname => ?_, Members.without_nil]
  rw [Members.find?_ofList, verbatim.last?_pairs h hname, if_neg List.not_mem_nil]

/-- What is signed of the proof is what was supplied but for the signature. -/
theorem Verbatim.config_eq (verbatim : Verbatim (.object members)) (sorted : members.Sorted)
    (h : ofJson? (.object members) = some p) :
    p.config.toJson = .object (Members.without ["proofValue"] members) := by
  obtain ⟨_, hmembers, -, -, hextra⟩ := ofJson?_eq_some h
  cases hmembers
  have hconfig : p.config.extra = Members.without fieldNames members := hextra
  have hdropped : ∀ name ∈ ["proofValue"], name ∈ fieldNames := by decide
  rw [Proof.toJson_eq, hconfig, Members.override_without (Members.sorted_ofList _) sorted
    p.config.known_ofList_pairs hdropped fun name hname => ?_]
  rw [Members.find?_ofList]
  have hpairs : Members.last? name p.config.pairs =
      if name = "proofValue" then none else Members.last? name p.pairs := by
    simp only [fieldNames, List.mem_cons, List.not_mem_nil, or_false] at hname
    rcases hname with rfl | rfl | rfl | rfl | rfl | rfl | rfl <;> simp [pairs, config]
  rw [hpairs, verbatim.last?_pairs h hname]
  simp only [List.mem_singleton]

theorem string_of_mem_pairs {m : String × Json} (h : m ∈ p.pairs) : ∃ text, m.2 = .string text := by
  have htext : ∀ (key : String) (text : Option String),
      ∀ m ∈ Json.optional key (text.map .string), ∃ text, m.2 = .string text := by
    rintro key (_ | text) m hm
    · cases hm
    · exact ⟨text, by rw [List.mem_singleton.1 hm]⟩
  simp only [pairs, List.mem_append] at h
  rcases h with ((h | h) | h) | h
  · simp only [List.mem_cons, List.not_mem_nil, or_false] at h
    rcases h with rfl | rfl | rfl | rfl <;> exact ⟨_, rfl⟩
  · exact htext _ _ m h
  · exact htext _ _ m h
  · exact htext _ _ m h

/-- Only further members hold more than a text. -/
theorem of_mem_toJson {P : Json → Prop} (texts : ∀ text, P (.string text))
    (further : ∀ m ∈ p.extra, P m.2) :
    ∀ m ∈ Members.override (Members.ofList p.pairs) p.extra, P m.2 := by
  intro m hm
  rcases Members.mem_of_mem_override hm with hm | hm
  · exact further m hm
  · obtain ⟨text, hvalue⟩ := string_of_mem_pairs (Members.mem_of_mem_ofList hm)
    exact hvalue ▸ texts text

theorem ordered_of_extra (further : ∀ m ∈ p.extra, m.2.Ordered) : p.toJson.Ordered :=
  .object (Members.sorted_override (Members.sorted_ofList _) _)
    (of_mem_toJson (P := Json.Ordered) .string further)

theorem ordered_toJson {value : Json} (ordered : value.Ordered) (h : ofJson? value = some p) :
    p.toJson.Ordered := by
  obtain ⟨members, rfl, -, -, hextra⟩ := ofJson?_eq_some h
  exact ordered_of_extra fun m hm =>
    ordered.of_mem_object m (List.mem_of_mem_filter (hextra ▸ hm))

end Proof

namespace Json

/-- An object without the member of a name. -/
def lacking (name : String) : Json → Json
  | object members => object (Members.without [name] members)
  | value => value

end Json

namespace Update

variable {u : Update} {members : Members Json}

/-- Nothing about the fields is lost when an update is read. -/
structure Verbatim (raw : Json) : Prop where
  unsigned : UnsignedUpdate.Verbatim raw
  proof : ∀ value, raw.member? "proof" = some value → Proof.Verbatim value

theorem ofJson?_eq_some (h : ofJson? raw = some u) : ∃ members proof, raw = .object members ∧
    UnsignedUpdate.read? fieldNames (.object members) = some u.unsigned ∧
    Members.find? "proof" members = some proof ∧ Proof.ofJson? proof = some u.proof := by
  obtain ⟨unsigned, hunsigned, h⟩ := Option.bind_eq_some_iff.1 h
  obtain ⟨read, hread, h⟩ := Option.bind_eq_some_iff.1 h
  cases h
  obtain ⟨proof, hfound, hproof⟩ := Option.bind_eq_some_iff.1 hread
  obtain ⟨members, rfl, -⟩ := UnsignedUpdate.read?_eq_some hunsigned
  exact ⟨members, proof, rfl, hunsigned, hfound, hproof⟩

theorem extra_eq (h : ofJson? (.object members) = some u) :
    u.unsigned.extra = Members.without fieldNames members := by
  obtain ⟨_, _, hmembers, hread, -⟩ := ofJson?_eq_some h
  cases hmembers
  obtain ⟨_, hmembers, -, -, -, -, -, hextra⟩ := UnsignedUpdate.read?_eq_some hread
  cases hmembers
  exact hextra

/-- The known members of an update, the proof among them. -/
def known (u : Update) : Members Json :=
  Members.insert "proof" u.proof.toJson u.unsigned.members

theorem sorted_known (u : Update) : u.known.Sorted :=
  Members.sorted_insert (Members.sorted_ofList _) _ _

theorem names_known (u : Update) : ∀ m ∈ u.known, m.1 ∈ fieldNames := by
  intro m hm
  rcases Members.mem_of_mem_insert hm with rfl | hm
  · exact List.mem_cons_self
  · exact List.mem_cons_of_mem _ (u.unsigned.known_members m hm)

theorem toJson_eq (u : Update) :
    u.toJson = .object (Members.override u.known u.unsigned.extra) := rfl

/-- Members without fields are found in what is written as they were supplied. -/
theorem member?_toJson_of_not_mem (ordered : raw.Ordered) (h : ofJson? raw = some u) {name : String}
    (hname : name ∉ fieldNames) : u.toJson.member? name = raw.member? name := by
  obtain ⟨members, _, rfl, -⟩ := ofJson?_eq_some h
  have hnone : Members.find? name u.known = none :=
    Members.find?_eq_none_iff.2 fun m hm heq => hname (heq ▸ u.names_known m hm)
  rw [toJson_eq, Json.member?, Json.member?, extra_eq h,
    Members.find?_override _ (Members.sorted_without ordered.sorted _), Members.find?_without,
    if_neg hname, hnone, Option.or_none]

/-- Under the name of a field the known member is found in what is written. -/
theorem find?_override_known (ordered : Json.Ordered (.object members))
    (h : ofJson? (.object members) = some u) {name : String} (hname : name ∈ fieldNames) :
    Members.find? name (Members.override u.known u.unsigned.extra) =
      Members.find? name u.known := by
  rw [extra_eq h, Members.find?_override _ (Members.sorted_without ordered.sorted _),
    Members.find?_without, if_pos hname, Option.none_or]

theorem find?_known_of_ne {name : String} (h : name ≠ "proof") :
    Members.find? name u.known = Members.find? name u.unsigned.members :=
  Members.find?_insert_of_ne h _ _

/-- A verbatim update is written as it was supplied. -/
theorem Verbatim.toJson_eq (verbatim : Verbatim (.object members))
    (ordered : Json.Ordered (.object members)) (h : ofJson? (.object members) = some u) :
    u.toJson = .object members := by
  obtain ⟨_, proof, hmembers, hread, hfound, hproof⟩ := ofJson?_eq_some h
  cases hmembers
  rw [Update.toJson_eq, extra_eq h, Members.override_without u.sorted_known ordered.sorted
    u.names_known (List.forall_mem_nil _) fun name hname => ?_, Members.without_nil]
  rw [if_neg List.not_mem_nil]
  rcases List.mem_cons.1 hname with rfl | hname
  · obtain ⟨found, rfl, -⟩ := Proof.ofJson?_eq_some hproof
    have hordered := ordered.of_mem_object _ (Members.mem_of_find? hfound)
    rw [known, Members.find?_insert_self, hfound,
      (verbatim.proof _ hfound).toJson_eq hordered.sorted hproof]
  · have hother : name ≠ "proof" := by
      rintro rfl
      exact absurd hname (by decide)
    rw [find?_known_of_ne hother, verbatim.unsigned.find?_members ordered hread hname]

/-- What is signed of a verbatim update is what was supplied but for the proof. -/
theorem Verbatim.unsigned_eq (verbatim : Verbatim (.object members))
    (ordered : Json.Ordered (.object members)) (h : ofJson? (.object members) = some u) :
    u.unsigned.toJson = .object (Members.without ["proof"] members) := by
  obtain ⟨_, proof, hmembers, hread, -⟩ := ofJson?_eq_some h
  cases hmembers
  have hnames : ∀ m ∈ u.unsigned.members, m.1 ∈ fieldNames := fun m hm =>
    List.mem_cons_of_mem _ (u.unsigned.known_members m hm)
  have hdropped : ∀ name ∈ ["proof"], name ∈ fieldNames := by decide
  rw [UnsignedUpdate.toJson, extra_eq h, Members.override_without u.unsigned.sorted_members
    ordered.sorted hnames hdropped fun name hname => ?_]
  rcases List.mem_cons.1 hname with rfl | hname
  · rw [if_pos List.mem_cons_self]
    exact Members.find?_eq_none_iff.2 fun m hm heq =>
      absurd (heq ▸ u.unsigned.known_members m hm) (by decide)
  · have hother : name ∉ ["proof"] := by
      rintro hmem
      obtain rfl := List.mem_singleton.1 hmem
      exact absurd hname (by decide)
    rw [if_neg hother, verbatim.unsigned.find?_members ordered hread hname]

/-- An update that is written as it was supplied, as far as hashes can tell, is verbatim. -/
theorem verbatim_of_alike (ordered : Json.Ordered (.object members))
    (h : ofJson? (.object members) = some u) (halike : u.toJson.Alike (.object members)) :
    Verbatim (.object members) := by
  obtain ⟨_, proof, hmembers, hread, hfound, hproof⟩ := ofJson?_eq_some h
  cases hmembers
  have hrel : ∀ name ∈ fieldNames, Option.Rel Json.Alike (Members.find? name u.known)
      (Members.find? name members) := by
    intro name hname
    rw [← find?_override_known ordered h hname]
    exact halike.member?_rel name
  refine ⟨UnsignedUpdate.verbatim_of_rel hread fun name hname => ?_, fun value hvalue => ?_⟩
  · have hother : name ≠ "proof" := by
      rintro rfl
      exact absurd hname (by decide)
    rw [← find?_known_of_ne hother]
    exact hrel name (List.mem_cons_of_mem _ hname)
  · obtain rfl : proof = value := Option.some.inj (hfound.symm.trans hvalue)
    obtain ⟨found, rfl, -, -, hextra⟩ := Proof.ofJson?_eq_some hproof
    have hordered := ordered.of_mem_object _ (Members.mem_of_find? hfound)
    have hsame := hrel "proof" List.mem_cons_self
    rw [known, Members.find?_insert_self, hfound] at hsame
    cases hsame with
    | some hsame =>
        refine Proof.verbatim_of_rel hproof fun name hname => ?_
        have hmember := hsame.member?_rel name
        rw [Proof.toJson_eq, Json.member?, hextra,
          Members.find?_override _ (Members.sorted_without hordered.sorted _),
          Members.find?_without, if_pos hname, Option.none_or, Members.find?_ofList] at hmember
        exact hmember

theorem ordered_toJson (ordered : raw.Ordered) (h : ofJson? raw = some u) : u.toJson.Ordered := by
  obtain ⟨members, proof, rfl, hread, hfound, hproof⟩ := ofJson?_eq_some h
  refine .object (Members.sorted_override u.sorted_known _) fun m hm => ?_
  rcases Members.mem_of_mem_override hm with hm | hm
  · rw [extra_eq h] at hm
    exact ordered.of_mem_object m (List.mem_of_mem_filter hm)
  · rcases Members.mem_of_mem_insert hm with rfl | hm
    · exact Proof.ordered_toJson (ordered.of_mem_object _ (Members.mem_of_find? hfound)) hproof
    · exact UnsignedUpdate.ordered_members ordered hread m hm

/-- Hashes and signatures cover a verbatim update as it was supplied, and no other one. Its hash is
that of the supplied value; what is signed is the supplied value without its proof, and the proof
without its signature. In any update the members that have no field are covered. -/
theorem hash_as_supplied (ordered : raw.Ordered) (h : ofJson? raw = some u) :
    (u.toJson.canonicalText = raw.canonicalText ↔ Verbatim raw) ∧
    (Verbatim raw → u.hash = raw.hash ∧
      u.unsigned.toJson.canonicalText = (raw.lacking "proof").canonicalText ∧
      ∃ proof, raw.member? "proof" = some proof ∧
        u.proof.config.toJson.canonicalText = (proof.lacking "proofValue").canonicalText) ∧
    ∀ name, name ∉ fieldNames → u.toJson.member? name = raw.member? name := by
  obtain ⟨members, proof, rfl, hread, hfound, hproof⟩ := ofJson?_eq_some h
  refine ⟨⟨fun hsame => ?_, fun verbatim => ?_⟩, fun verbatim => ⟨?_, ?_, proof, hfound, ?_⟩,
    fun name => member?_toJson_of_not_mem ordered h⟩
  · exact verbatim_of_alike ordered h
      (Json.alike_of_canonicalText_eq (ordered_toJson ordered h) ordered hsame)
  · rw [verbatim.toJson_eq ordered h]
  · rw [hash, verbatim.toJson_eq ordered h]
  · rw [verbatim.unsigned_eq ordered h, Json.lacking]
  · obtain ⟨found, rfl, -⟩ := Proof.ofJson?_eq_some hproof
    have hordered := ordered.of_mem_object _ (Members.mem_of_find? hfound)
    rw [(verbatim.proof _ hfound).config_eq hordered.sorted hproof, Json.lacking]

end Update

namespace Sample

/-- A proof by a method; nobody has looked at its signature. -/
def suppliedProof : Json :=
  Json.ofMembers [("type", "DataIntegrityProof"), ("cryptosuite", "bip340-jcs-2025"),
    ("verificationMethod", "#key"), ("proofPurpose", "capabilityInvocation"), ("proofValue", "z")]

/-- An update of one operation. -/
def suppliedUpdate (operation : Json) : Json :=
  Json.ofMembers [("patch", .array [operation]), ("proof", suppliedProof),
    ("sourceHash", Json.ofDigest .zero), ("targetHash", Json.ofDigest .zero),
    ("sourceVersionId", .int 1)]

/-- An operation, and further members with it. -/
def operationWith (further : List (String × Json)) : Json :=
  Json.ofMembers (("op", "add") :: ("path", "/x") :: ("value", .bool true) :: further)

theorem ordered_suppliedUpdate {operation : Json} (h : operation.Ordered) :
    (suppliedUpdate operation).Ordered := by
  have hproof : suppliedProof.Ordered := Json.ordered_ofMembers (by simp [Json.Ordered.string])
  refine Json.ordered_ofMembers ?_
  simp only [List.forall_mem_cons, List.not_mem_nil, false_implies, implies_true, and_true]
  exact ⟨.array (List.forall_mem_singleton.2 h), hproof, .string _, .string _, .int _⟩

theorem ordered_operationWith {further : List (String × Json)} (h : ∀ m ∈ further, m.2.Ordered) :
    (operationWith further).Ordered := by
  refine Json.ordered_ofMembers ?_
  simp only [List.forall_mem_cons]
  exact ⟨.string _, .string _, .bool _, h⟩

end Sample

namespace Update

/-- An update with one operation is covered as it was supplied. -/
theorem hash_as_supplied_sample :
    ∃ u, ofJson? (Sample.suppliedUpdate (Sample.operationWith [])) = some u ∧
      u.hash = (Sample.suppliedUpdate (Sample.operationWith [])).hash := by
  have hsome : (ofJson? (Sample.suppliedUpdate (Sample.operationWith []))).isSome := by
    decide +kernel
  obtain ⟨u, hu⟩ := Option.isSome_iff_exists.1 hsome
  have hsame : (ofJson? (Sample.suppliedUpdate (Sample.operationWith []))).all fun u =>
      u.toJson.canonicalText = (Sample.suppliedUpdate (Sample.operationWith [])).canonicalText := by
    decide +kernel
  rw [hu, Option.all_some, decide_eq_true_eq] at hsame
  obtain ⟨hverbatim, hcovered, -⟩ := hash_as_supplied
    (Sample.ordered_suppliedUpdate (Sample.ordered_operationWith (List.forall_mem_nil _))) hu
  exact ⟨u, hu, (hcovered (hverbatim.1 hsame)).1⟩

/-- What is signed does not always cover the update as it was supplied: a further member of an
operation is lost. -/
theorem signed_not_as_supplied : ¬ ∀ (raw : Json) (u : Update), raw.Ordered →
    ofJson? raw = some u →
      u.unsigned.toJson.canonicalText = (raw.lacking "proof").canonicalText := by
  intro h
  have hsome : (ofJson? (Sample.suppliedUpdate
      (Sample.operationWith [("memo", "as supplied")]))).isSome := by decide +kernel
  obtain ⟨u, hu⟩ := Option.isSome_iff_exists.1 hsome
  have hdiffers : (ofJson? (Sample.suppliedUpdate
      (Sample.operationWith [("memo", "as supplied")]))).all fun u =>
        u.unsigned.toJson.canonicalText ≠ ((Sample.suppliedUpdate
          (Sample.operationWith [("memo", "as supplied")])).lacking "proof").canonicalText := by
    decide +kernel
  rw [hu, Option.all_some, decide_eq_true_eq] at hdiffers
  exact hdiffers (h _ u (Sample.ordered_suppliedUpdate
    (Sample.ordered_operationWith (List.forall_mem_singleton.2 (.string _)))) hu)

end Update

end AnchoredDid
