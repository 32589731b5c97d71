import BlockInventory.Json.Reader
import BlockInventory.Proofs.Json.TokenText

/-!
# Texts that spell values

The tokens of a value, and that the reader gives the value back for them, hence for every text that spells them.
-/

set_option autoImplicit false

namespace BlockInventory.Json

namespace Value

/-- Induction on a value that knows its claim for all items and members. -/
@[elab_as_elim]
theorem induct_on {motive : Value → Prop} (value : Value) (null : motive .null)
    (boolean : ∀ truth, motive (.boolean truth)) (number : ∀ spelling, motive (.number spelling))
    (string : ∀ text, motive (.string text))
    (array : ∀ items, (∀ item ∈ items, motive item) → motive (.array items))
    (object : ∀ members, (∀ member ∈ members, motive member.2) → motive (.object members)) :
    motive value := by
  refine @Value.rec motive (fun items => ∀ item ∈ items, motive item)
    (fun members => ∀ member ∈ members, motive member.2) (fun member => motive member.2)
    null boolean number string array object ?noItem ?item ?noMember ?member ?pair value
  case noItem => intro _ member; cases member
  case item =>
    intro _ _ headHolds restHolds
    exact List.forall_mem_cons.mpr ⟨headHolds, restHolds⟩
  case noMember => intro _ member; cases member
  case member =>
    intro _ _ headHolds restHolds
    exact List.forall_mem_cons.mpr ⟨headHolds, restHolds⟩
  case pair => exact fun _ _ holds => holds

mutual

/-- The tokens of a value. -/
def tokens : Value → List Token
  | .null => [.null]
  | .boolean value => [.boolean value]
  | .number spelling => [.number spelling]
  | .string text => [.string text]
  | .array [] => [.openArray, .closeArray]
  | .array (item :: items) => .openArray :: tokens item ++ itemTokens items ++ [.closeArray]
  | .object [] => [.openObject, .closeObject]
  | .object ((key, value) :: members) =>
    .openObject :: .string key :: .colon :: tokens value ++ memberTokens members ++ [.closeObject]
termination_by structural value => value

/-- The tokens of further items, each after a comma. -/
def itemTokens : List Value → List Token
  | [] => []
  | item :: items => .comma :: tokens item ++ itemTokens items
termination_by structural items => items

/-- The tokens of further members, each after a comma. -/
def memberTokens : List (Option String × Value) → List Token
  | [] => []
  | (key, value) :: members => .comma :: .string key :: .colon :: tokens value ++ memberTokens members
termination_by structural members => members

end

end Value

namespace Expectation

/-- What may come after tokens. -/
def after (expectation : Expectation) (tokens : List Token) : Option Expectation :=
  tokens.foldlM step expectation

variable {expectation next : Expectation} {token : Token} {rest : List Token} {value : Value}
  {opened : List Frame}

theorem after_cons (stepped : step expectation token = some next) :
    expectation.after (token :: rest) = next.after rest := by
  simp [after, stepped]

/-- The tokens of a value are read as that value. -/
def Reads (value : Value) : Prop :=
  ∀ (opened : List Frame) (rest : List Token),
    after (.valueDue opened) (value.tokens ++ rest) = after (.ended value opened) rest

private theorem tokens_eq_cons (value : Value) : ∃ head tail, value.tokens = head :: tail ∧ head ≠ .closeArray := by
  cases value with
  | null => exact ⟨_, _, rfl, Token.noConfusion⟩
  | boolean truth => exact ⟨_, _, rfl, Token.noConfusion⟩
  | number spelling => exact ⟨_, _, rfl, Token.noConfusion⟩
  | string text => exact ⟨_, _, rfl, Token.noConfusion⟩
  | array items => cases items <;> exact ⟨_, _, rfl, Token.noConfusion⟩
  | object members => cases members <;> exact ⟨_, _, rfl, Token.noConfusion⟩

/-- Where an array may end or have its first item, a value is read as that item. -/
private theorem after_firstItem :
    after (.firstItem opened) (value.tokens ++ rest) = after (.valueDue (.array [] :: opened)) (value.tokens ++ rest) := by
  obtain ⟨head, tail, tokens, notClose⟩ := tokens_eq_cons value
  have same : step (.firstItem opened) head = step (.valueDue (.array [] :: opened)) head := by
    cases head <;> first | rfl | exact absurd rfl notClose
  simp only [after, tokens, List.cons_append, List.foldlM_cons, same]

private theorem after_itemTokens {items earlier : List Value} (reads : ∀ item ∈ items, Reads item) :
    after (.ended value (.array earlier :: opened)) (Value.itemTokens items ++ .closeArray :: rest)
      = after (.ended (.array ((value :: earlier).reverse ++ items)) opened) rest := by
  induction items generalizing value earlier with
  | nil =>
      rw [Value.itemTokens, List.nil_append, after_cons rfl, List.append_nil]
  | cons item items ih =>
      rw [Value.itemTokens, List.cons_append, List.cons_append, List.append_assoc, after_cons rfl,
        reads item List.mem_cons_self, ih fun other member => reads other (List.mem_cons_of_mem item member)]
      simp

private theorem after_memberTokens {key : Option String} {members earlier : List (Option String × Value)}
    (reads : ∀ member ∈ members, Reads member.2) :
    after (.ended value (.object earlier key :: opened)) (Value.memberTokens members ++ .closeObject :: rest)
      = after (.ended (.object (((key, value) :: earlier).reverse ++ members)) opened) rest := by
  induction members generalizing key value earlier with
  | nil =>
      rw [Value.memberTokens, List.nil_append, after_cons rfl, List.append_nil]
  | cons member members ih =>
      obtain ⟨otherKey, other⟩ := member
      have otherReads : Reads other := reads (otherKey, other) List.mem_cons_self
      simp only [Value.memberTokens, List.cons_append, List.append_assoc]
      rw [after_cons rfl, after_cons rfl, after_cons rfl, otherReads,
        ih fun member later => reads member (List.mem_cons_of_mem (otherKey, other) later)]
      simp

theorem reads (value : Value) : Reads value := by
  induction value using Value.induct_on with
  | null => exact fun _ _ => after_cons rfl
  | boolean truth => exact fun _ _ => after_cons rfl
  | number spelling => exact fun _ _ => after_cons rfl
  | string text => exact fun _ _ => after_cons rfl
  | array items itemsRead =>
      intro opened rest
      cases items with
      | nil =>
          rw [Value.tokens, List.cons_append, List.cons_append, after_cons rfl, after_cons rfl]
          rfl
      | cons item items =>
          have itemReads : Reads item := itemsRead item List.mem_cons_self
          simp only [Value.tokens, List.cons_append, List.append_assoc, List.nil_append]
          rw [after_cons rfl, after_firstItem, itemReads,
            after_itemTokens fun other member => itemsRead other (List.mem_cons_of_mem item member)]
          rfl
  | object members membersRead =>
      intro opened rest
      cases members with
      | nil =>
          rw [Value.tokens, List.cons_append, List.cons_append, after_cons rfl, after_cons rfl]
          rfl
      | cons member members =>
          obtain ⟨key, value⟩ := member
          have valueReads : Reads value := membersRead (key, value) List.mem_cons_self
          simp only [Value.tokens, List.cons_append, List.append_assoc, List.nil_append]
          rw [after_cons rfl, after_cons rfl, after_cons rfl, valueReads,
            after_memberTokens fun member later => membersRead member (List.mem_cons_of_mem (key, value) later)]
          rfl

end Expectation

namespace Value

theorem ofTokens?_tokens (value : Value) : ofTokens? value.tokens = some value := by
  have read := Expectation.reads value [] []
  rw [List.append_nil] at read
  rw [ofTokens?]
  exact congrArg (·.bind Expectation.finish) read

theorem ofText?_of_spelled {value : Value} {text : List Char} (spelled : Token.Spelled value.tokens text) :
    ofText? text = some value := by
  rw [ofText?, spelled.ofText?_eq]
  exact ofTokens?_tokens value

end Value

end BlockInventory.Json
