import AnchoredDid.Json.Reader
import AnchoredDid.Proofs.Json.Members

/-!
# Values in order

An object that is read lists its members in increasing order of their names, at every depth
(`Json.ordered_of_read?`). Look-ups, comparisons and patches rely on that order, so statements about
them that hold of every value are statements about values in order.
-/

namespace AnchoredDid.Json

/-- Induction over a value, where a container may use what holds of everything in it. -/
@[elab_as_elim]
theorem induction {P : Json → Prop} (null : P .null) (bool : ∀ b, P (.bool b))
    (int : ∀ n, P (.int n)) (double : ∀ x, P (.double x)) (string : ∀ s, P (.string s))
    (array : ∀ items, (∀ x ∈ items, P x) → P (.array items))
    (object : ∀ members : List (String × Json), (∀ m ∈ members, P m.2) → P (.object members))
    (value : Json) : P value :=
  @Json.rec P (fun items => ∀ x ∈ items, P x) (fun members => ∀ m ∈ members, P m.2)
    (fun m => P m.2) null bool int double string array object
    (fun _ hx => nomatch hx) (fun _ _ hx hrest => List.forall_mem_cons.2 ⟨hx, hrest⟩)
    (fun _ hm => nomatch hm) (fun _ _ hm hrest => List.forall_mem_cons.2 ⟨hm, hrest⟩)
    (fun _ _ hvalue => hvalue) value

/-- Every object in the value lists its members in increasing order of their names. -/
inductive Ordered : Json → Prop where
  | null : Ordered .null
  | bool (b : Bool) : Ordered (.bool b)
  | int (n : Int) : Ordered (.int n)
  | double (x : Double) : Ordered (.double x)
  | string (s : String) : Ordered (.string s)
  | array {items : List Json} (each : ∀ x ∈ items, Ordered x) : Ordered (.array items)
  | object {members : List (String × Json)} (sorted : Members.Sorted members)
      (each : ∀ m ∈ members, Ordered m.2) : Ordered (.object members)

namespace Ordered

theorem of_mem_array {items : List Json} (h : Ordered (.array items)) : ∀ x ∈ items, Ordered x := by
  cases h with
  | array each => exact each

theorem sorted {members : Members Json} (h : Ordered (.object members)) : members.Sorted := by
  cases h with
  | object sorted _ => exact sorted

theorem of_mem_object {members : Members Json} (h : Ordered (.object members)) :
    ∀ m ∈ members, Ordered m.2 := by
  cases h with
  | object _ each => exact each

end Ordered

theorem ordered_ofMembers {pairs : List (String × Json)} (h : ∀ p ∈ pairs, Ordered p.2) :
    Ordered (ofMembers pairs) :=
  .object (Members.sorted_ofList pairs) fun m hm => h m (Members.mem_of_mem_ofList hm)

/-! ## What holds of everything that is read -/

section Reading

variable {item : List Char → Option (Json × List Char)} {fuel depth : Nat} {negative : Bool}
  {magnitude : Nat} {text rest : List Char} {value : Json} {P : Json → Prop}

theorem ofInteger?_cases (h : ofInteger? negative magnitude = some value) :
    (∃ n, value = .int n) ∨
      ∃ x, Double.ofDecimal? negative magnitude 0 = some x ∧ value = .double x := by
  unfold ofInteger? at h
  cases negative with
  | true =>
      rw [if_pos rfl] at h
      split at h
      · exact .inl ⟨_, (Option.some.inj h).symm⟩
      · obtain ⟨x, hx, rfl⟩ := Option.map_eq_some_iff.1 h
        exact .inr ⟨x, hx, rfl⟩
  | false =>
      rw [if_neg Bool.false_ne_true] at h
      split at h
      · exact .inl ⟨_, (Option.some.inj h).symm⟩
      · obtain ⟨x, hx, rfl⟩ := Option.map_eq_some_iff.1 h
        exact .inr ⟨x, hx, rfl⟩

/-- A number is an integer, or the double that its literal is rounded to. -/
theorem readMagnitude_cases (h : readMagnitude negative text = some (value, rest)) :
    (∃ n, value = .int n) ∨
      ∃ digits scale x, Double.ofDecimal? negative digits scale = some x ∧ value = .double x := by
  simp only [readMagnitude, Option.bind_eq_bind] at h
  split at h
  · cases h
  · obtain ⟨⟨fraction, afterPoint⟩, -, h⟩ := Option.bind_eq_some_iff.1 h
    obtain ⟨⟨exponent, afterLetter⟩, -, h⟩ := Option.bind_eq_some_iff.1 h
    split at h
    · obtain ⟨found, hfound, h⟩ := Option.bind_eq_some_iff.1 h
      cases h
      exact (ofInteger?_cases hfound).imp_right fun ⟨x, hx⟩ => ⟨_, _, x, hx⟩
    · obtain ⟨x, hx, h⟩ := Option.bind_eq_some_iff.1 h
      cases h
      exact .inr ⟨_, _, x, hx, rfl⟩

/-- A property of elements that are each read alone is one of all elements. -/
theorem forall_of_readElements (hitem : ∀ text x rest, item text = some (x, rest) → P x)
    {items : List Json} (h : readElements item fuel text = some (items, rest)) :
    ∀ x ∈ items, P x := by
  induction fuel generalizing text items rest with
  | zero => cases h
  | succ fuel ih =>
      simp only [readElements, Option.bind_eq_bind] at h
      obtain ⟨⟨first, later⟩, hfirst, h⟩ := Option.bind_eq_some_iff.1 h
      have hholds := hitem _ _ _ hfirst
      dsimp only at h
      split at h
      · obtain ⟨⟨others, left⟩, hothers, h⟩ := Option.bind_eq_some_iff.1 h
        cases h
        exact List.forall_mem_cons.2 ⟨hholds, ih hothers⟩
      · cases h
        exact List.forall_mem_singleton.2 hholds
      · cases h

/-- So it is of the values in an object. -/
theorem forall_of_readPairs (hitem : ∀ text x rest, item text = some (x, rest) → P x)
    {pairs : List (String × Json)} (h : readPairs item fuel text = some (pairs, rest)) :
    ∀ p ∈ pairs, P p.2 := by
  induction fuel generalizing text pairs rest with
  | zero => cases h
  | succ fuel ih =>
      simp only [readPairs, Option.bind_eq_bind] at h
      split at h
      · obtain ⟨⟨name, afterName⟩, -, h⟩ := Option.bind_eq_some_iff.1 h
        dsimp only at h
        split at h
        · obtain ⟨⟨first, later⟩, hfirst, h⟩ := Option.bind_eq_some_iff.1 h
          have hholds := hitem _ _ _ hfirst
          dsimp only at h
          split at h
          · obtain ⟨⟨others, left⟩, hothers, h⟩ := Option.bind_eq_some_iff.1 h
            cases h
            exact List.forall_mem_cons.2 ⟨hholds, ih hothers⟩
          · cases h
            exact List.forall_mem_singleton.2 hholds
          · cases h
        · cases h
      · cases h

/-- What holds of values without parts, and of containers whenever it does of their parts, where an
object is put together from pairs as they are read. -/
structure HoldsOfRead (P : Json → Prop) : Prop where
  null : P .null
  bool : ∀ b, P (.bool b)
  int : ∀ n, P (.int n)
  double : ∀ {negative digits scale x}, Double.ofDecimal? negative digits scale = some x →
    P (.double x)
  string : ∀ s, P (.string s)
  array : ∀ {items}, (∀ x ∈ items, P x) → P (.array items)
  object : ∀ {pairs : List (String × Json)}, (∀ p ∈ pairs, P p.2) → P (ofMembers pairs)

namespace HoldsOfRead

theorem of_readMagnitude (holds : HoldsOfRead P)
    (h : readMagnitude negative text = some (value, rest)) : P value := by
  obtain ⟨n, rfl⟩ | ⟨digits, scale, x, hx, rfl⟩ := readMagnitude_cases h
  · exact holds.int n
  · exact holds.double hx

theorem of_readValue (holds : HoldsOfRead P) (h : readValue fuel depth text = some (value, rest)) :
    P value := by
  induction depth generalizing text value rest with
  | zero =>
      rw [readValue] at h
      split at h
      · cases h; exact holds.null
      · cases h; exact holds.bool true
      · cases h; exact holds.bool false
      · obtain ⟨⟨chars, left⟩, -, h⟩ := Option.bind_eq_some_iff.1 h
        cases h
        exact holds.string _
      · cases h
      · cases h
      · exact holds.of_readMagnitude h
      · exact holds.of_readMagnitude h
  | succ depth ih =>
      rw [readValue] at h
      split at h
      · cases h; exact holds.null
      · cases h; exact holds.bool true
      · cases h; exact holds.bool false
      · obtain ⟨⟨chars, left⟩, -, h⟩ := Option.bind_eq_some_iff.1 h
        cases h
        exact holds.string _
      · dsimp only at h
        split at h
        · cases h
          exact holds.array fun _ hx => nomatch hx
        · obtain ⟨⟨items, left⟩, hitems, h⟩ := Option.bind_eq_some_iff.1 h
          cases h
          exact holds.array (forall_of_readElements (fun _ _ _ => ih) hitems)
      · dsimp only at h
        split at h
        · cases h
          have hempty : P (ofMembers []) := holds.object fun _ hp => nomatch hp
          exact hempty
        · obtain ⟨⟨pairs, left⟩, hpairs, h⟩ := Option.bind_eq_some_iff.1 h
          cases h
          exact holds.object (forall_of_readPairs (fun _ _ _ => ih) hpairs)
      · exact holds.of_readMagnitude h
      · exact holds.of_readMagnitude h

theorem of_read? (holds : HoldsOfRead P) {text : String} (h : read? text = some value) :
    P value := by
  simp only [read?, Option.bind_eq_bind] at h
  obtain ⟨⟨found, left⟩, hfound, h⟩ := Option.bind_eq_some_iff.1 h
  dsimp only at h
  split at h
  · cases h
    exact holds.of_readValue hfound
  · cases h

end HoldsOfRead

/-- Whatever a text spells is in order. -/
theorem ordered_of_read? {text : String} (h : read? text = some value) : value.Ordered := by
  have holds : HoldsOfRead Ordered :=
    { null := .null
      bool := .bool
      int := .int
      double := fun _ => .double _
      string := .string
      array := .array
      object := ordered_ofMembers }
  exact holds.of_read? h

end Reading

end AnchoredDid.Json
