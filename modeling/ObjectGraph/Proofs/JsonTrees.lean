import ObjectGraph.Json.Tree
import ObjectGraph.Proofs.JsonTokens

/-!
# Reading written trees

The text of a JSON value is read back as that value (`Json.parse?_render`), if its numerals are well
formed and its strings and keys are forms of strings (`Json.Plain`), as those that are written are.

Building is followed along the tree. `Builds` says what the tokens of a value do to a tree under
construction whatever is open around it and whatever comes after them; an array or an object goes
through the states in which some of its parts have been read.
-/

set_option autoImplicit false

namespace ObjectGraph.Json

/-- The value is as values are written. -/
inductive Plain : Json → Prop
  | null : Plain .null
  | boolean (b : Bool) : Plain (.boolean b)
  | number {n : Numeral} (h : n.Proper) : Plain (.number n)
  | string (s : String) : Plain (.string (.ofString s))
  | array {items : List Json} (hitems : ∀ v ∈ items, Plain v) : Plain (.array items)
  | object {members : List (Text × Json)} (hkeys : ∀ m ∈ members, ∃ s, m.1 = Text.ofString s)
      (hvalues : ∀ m ∈ members, Plain m.2) : Plain (.object members)

/-! ## The tokens of a tree can be told apart -/

/-- The tokens of a member. -/
def tokensOfMember (m : Text × Json) : List Token := .string m.1 :: .colon :: m.2.tokens

theorem tokensOfItems_eq_intercalate (items : List Json) :
    tokensOfItems items = [Token.comma].intercalate (items.map tokens) := by
  induction items with
  | nil => rfl
  | cons v rest ih =>
    cases rest with
    | nil => simp [tokensOfItems]
    | cons w rest => simp [tokensOfItems, ih, List.intercalate_cons_cons]

theorem tokensOfMembers_eq_intercalate (members : List (Text × Json)) :
    tokensOfMembers members = [Token.comma].intercalate (members.map tokensOfMember) := by
  induction members with
  | nil => rfl
  | cons m rest ih =>
    cases rest with
    | nil => simp [tokensOfMembers, tokensOfMember]
    | cons w rest => simp [tokensOfMembers, tokensOfMember, ih, List.intercalate_cons_cons]

/-- Parts with commas between them can be told apart as soon as each part can. -/
theorem Legible.intercalate {parts : List (List Token)} (h : ∀ ts ∈ parts, Legible ts) :
    Legible ([Token.comma].intercalate parts) := by
  induction parts with
  | nil => exact .nil
  | cons ts rest ih =>
    obtain ⟨hts, hrest⟩ := List.forall_mem_cons.mp h
    cases rest with
    | nil => simpa using hts
    | cons us rest =>
      rw [List.intercalate_cons_cons, List.append_assoc]
      exact hts.append ((ih hrest).cons trivial (fun n hn => nomatch hn))
        fun u hu => .inl (Option.some.inj hu).symm

theorem legible_tokens {v : Json} (h : v.Plain) : Legible v.tokens := by
  induction h with
  | null => exact .singleton trivial
  | boolean b => exact .singleton trivial
  | number h => exact .singleton h
  | string s => exact .singleton ⟨s, rfl⟩
  | @array items _ ih =>
    have hparts : Legible (tokensOfItems items) := by
      rw [tokensOfItems_eq_intercalate]
      exact .intercalate (List.forall_mem_map.mpr ih)
    have hclosed : Legible (tokensOfItems items ++ [.closeArray]) :=
      hparts.append (.singleton (t := .closeArray) trivial)
        fun u hu => .inr (.inl (Option.some.inj hu).symm)
    rw [tokens]
    exact hclosed.cons (t := .openArray) trivial fun n hn => nomatch hn
  | @object members hkeys _ ih =>
    have hparts : Legible (tokensOfMembers members) := by
      rw [tokensOfMembers_eq_intercalate]
      refine .intercalate (List.forall_mem_map.mpr fun m hm => ?_)
      have hvalue : Legible (.colon :: m.2.tokens) :=
        (ih m hm).cons (t := .colon) trivial fun n hn => nomatch hn
      exact hvalue.cons (t := .string m.1) (hkeys m hm) fun n hn => nomatch hn
    have hclosed : Legible (tokensOfMembers members ++ [.closeObject]) :=
      hparts.append (.singleton (t := .closeObject) trivial)
        fun u hu => .inr (.inr (Option.some.inj hu).symm)
    rw [tokens]
    exact hclosed.cons (t := .openObject) trivial fun n hn => nomatch hn

/-! ## The tree from its tokens -/

namespace Construction

theorem run?_cons {state next : Construction} {token : Token} (h : state.step? token = some next)
    (rest : List Token) : state.run? (token :: rest) = next.run? rest := by
  rw [run?, h]

/-- The tokens of the value, where a value is expected, give that value. -/
def Builds (v : Json) : Prop :=
  ∀ (frames : List Frame) (rest : List Token),
    run? ⟨frames, .value⟩ (v.tokens ++ rest) = run? ⟨frames, .more v⟩ rest

/-- Items in an array of which some have been read already, last first, and the end of the array. -/
theorem run?_items (frames : List Frame) (done : List Json) {v : Json} {rest : List Json}
    (h : ∀ w ∈ v :: rest, Builds w) (more : List Token) :
    run? ⟨.array done :: frames, .value⟩ (tokensOfItems (v :: rest) ++ .closeArray :: more) =
      run? ⟨frames, .more (.array (done.reverse ++ v :: rest))⟩ more := by
  induction rest generalizing v done with
  | nil =>
    rw [tokensOfItems, h v List.mem_cons_self, run?_cons rfl, List.reverse_cons]
  | cons w rest ih =>
    obtain ⟨hv, hrest⟩ := List.forall_mem_cons.mp h
    rw [tokensOfItems, List.append_assoc, hv, List.cons_append, run?_cons rfl, ih (v :: done) hrest,
      List.reverse_cons, List.append_assoc, List.singleton_append]

/-- Members of an object of which some have been read already, last first, and the end of the
object. -/
theorem run?_members (frames : List Frame) (done : List (Text × Json)) {m : Text × Json}
    {rest : List (Text × Json)} (h : ∀ n ∈ m :: rest, Builds n.2) (more : List Token) :
    run? ⟨frames, .key done⟩ (tokensOfMembers (m :: rest) ++ .closeObject :: more) =
      run? ⟨frames, .more (.object (done.reverse ++ m :: rest))⟩ more := by
  induction rest generalizing m done with
  | nil =>
    rw [tokensOfMembers, List.cons_append, run?_cons rfl, List.cons_append, run?_cons rfl,
      h m List.mem_cons_self, run?_cons rfl, List.reverse_cons]
  | cons n rest ih =>
    obtain ⟨hm, hrest⟩ := List.forall_mem_cons.mp h
    rw [tokensOfMembers, List.cons_append, run?_cons rfl, List.cons_append, run?_cons rfl,
      List.append_assoc, hm, List.cons_append, run?_cons rfl, ih (m :: done) hrest,
      List.reverse_cons, List.append_assoc, List.singleton_append]

/-- No value begins with the end of an array. -/
theorem exists_tokensOfItems_eq_cons (v : Json) (rest : List Json) :
    ∃ t ts, tokensOfItems (v :: rest) = t :: ts ∧ t ≠ .closeArray := by
  cases v <;> cases rest <;> exact ⟨_, _, rfl, fun h => nomatch h⟩

/-- The first item of an array is read like any value. -/
theorem run?_firstItem (frames : List Frame) (v : Json) (rest : List Json) (more : List Token) :
    run? ⟨frames, .firstItem⟩ (tokensOfItems (v :: rest) ++ more) =
      run? ⟨frames, .value⟩ (tokensOfItems (v :: rest) ++ more) := by
  obtain ⟨t, ts, heq, ht⟩ := exists_tokensOfItems_eq_cons v rest
  have hstep : step? ⟨frames, .firstItem⟩ t = step? ⟨frames, .value⟩ t := by
    cases t with
    | closeArray => exact absurd rfl ht
    | _ => rfl
  rw [heq, List.cons_append, run?, run?, hstep]

/-- The first key of an object is read like any key. -/
theorem run?_firstKey (frames : List Frame) (m : Text × Json) (rest : List (Text × Json))
    (more : List Token) :
    run? ⟨frames, .firstKey⟩ (tokensOfMembers (m :: rest) ++ more) =
      run? ⟨frames, .key []⟩ (tokensOfMembers (m :: rest) ++ more) := by
  cases rest <;> rfl

theorem builds {v : Json} (h : v.Plain) : Builds v := by
  induction h with
  | null | boolean b | number h | string s => exact fun frames rest => rfl
  | @array items _ ih =>
    intro frames more
    rw [tokens, List.cons_append, run?_cons rfl, List.append_assoc, List.singleton_append]
    cases items with
    | nil => exact run?_cons rfl more
    | cons v rest =>
      rw [run?_firstItem]
      exact run?_items frames [] ih more
  | @object members _ _ ih =>
    intro frames more
    rw [tokens, List.cons_append, run?_cons rfl, List.append_assoc, List.singleton_append]
    cases members with
    | nil => exact run?_cons rfl more
    | cons m rest =>
      rw [run?_firstKey]
      exact run?_members frames [] ih more

end Construction

/-- **The text of a value is read back as that value.** -/
theorem parse?_render {v : Json} (h : v.Plain) : parse? v.render = some v := by
  have hscan : scan? v.render.toList = some v.tokens := by
    rw [render, String.toList_ofList, scan?_write (legible_tokens h)]
  have hrun := Construction.builds h [] []
  rw [List.append_nil] at hrun
  rw [parse?, hscan]
  simp only [ofTokens?, Construction.initial, hrun]
  rfl

end ObjectGraph.Json
