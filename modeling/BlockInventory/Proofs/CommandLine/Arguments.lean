import BlockInventory.CommandLine.Arguments
import BlockInventory.Proofs.Success
import Mathlib.Data.List.TakeWhile

/-!
# Accepted arguments

The arguments that are read to their end and ask for a listing: settings with their values, in either spelling, and
the demand for JSON, in any order.
-/

set_option autoImplicit false

namespace BlockInventory.CommandLine

/-- Reading the arguments after those that gave `given`, where a setting may wait for its value, ends with what they
ask for. -/
inductive Accepted : Given → Option Setting → List String → Arguments → Prop where
  | finished {given : Given} : Accepted given none [] given.toArguments
  | terminated {given : Given} {argument : String} :
      shapeOf argument.toList = .terminator → Accepted given none [argument] given.toArguments
  | value {given next : Given} {setting : Setting} {argument : String} {rest : List String} {parsed : Arguments} :
      shapeOf argument.toList = .plain → given.set setting argument = .ok next →
      Accepted next none rest parsed → Accepted given (some setting) (argument :: rest) parsed
  | assigned {given next : Given} {setting : Setting} {argument : String} {name value : List Char}
      {rest : List String} {parsed : Arguments} :
      shapeOf argument.toList = .long name (some value) → Setting.ofName? name = some setting →
      given.set setting (String.ofList value) = .ok next →
      Accepted next none rest parsed → Accepted given none (argument :: rest) parsed
  | named {given : Given} {setting : Setting} {argument : String} {name : List Char} {rest : List String}
      {parsed : Arguments} :
      shapeOf argument.toList = .long name none → Setting.ofName? name = some setting →
      Accepted given (some setting) rest parsed → Accepted given none (argument :: rest) parsed
  | json {given next : Given} {argument : String} {rest : List String} {parsed : Arguments} :
      shapeOf argument.toList = .long "json".toList none → given.askJson = .ok next →
      Accepted next none rest parsed → Accepted given none (argument :: rest) parsed

variable {given : Given} {pending : Option Setting} {arguments : List String} {parsed : Arguments}

theorem readArguments_eq_ok_list_iff :
    readArguments given pending arguments = .ok (.list parsed) ↔ Accepted given pending arguments parsed := by
  constructor
  · intro read
    fun_induction readArguments given pending arguments with
    | case2 given =>
        cases read
        exact .finished
    | case3 given argument rest setting shape ih =>
        obtain ⟨next, result, read⟩ := bind_eq_ok_iff.mp read
        exact .value shape result (ih next read)
    | case6 given argument shape =>
        cases read
        exact .terminated shape
    | case10 given argument rest name setting value known shape ih =>
        obtain ⟨next, result, read⟩ := bind_eq_ok_iff.mp read
        exact .assigned shape known result (ih next read)
    | case11 given argument rest name setting known shape ih => exact .named shape known (ih read)
    | case13 given argument rest _ shape ih =>
        obtain ⟨next, result, read⟩ := bind_eq_ok_iff.mp read
        exact .json shape result (ih next read)
    -- Everything else is refused or asks for help.
    | _ => cases read
  · intro accepted
    induction accepted with
    | finished => rfl
    | terminated shape => simp only [readArguments, shape]
    | value shape result _ ih =>
        simp only [readArguments, shape, result]
        exact ih
    | assigned shape known result _ ih =>
        simp only [readArguments, shape, known, result]
        exact ih
    | named shape known _ ih =>
        simp only [readArguments, shape, known]
        exact ih
    | json shape result _ ih =>
        have noSetting : Setting.ofName? "json".toList = none := by decide +kernel
        simp only [readArguments, shape, noSetting, result]
        exact ih

/-! ## The demand for JSON -/

theorem shapeOf_eq_long_iff {text name : List Char} :
    shapeOf text = .long name none ↔ text = '-' :: '-' :: name ∧ name ≠ [] ∧ '=' ∉ name := by
  have noValue {name : List Char} : name.dropWhile (· != '=') = [] ↔ '=' ∉ name := by
    simp only [List.dropWhile_eq_nil_iff, bne_iff_ne, ne_eq]
    exact ⟨fun differ member => differ '=' member rfl, fun absent _ member same => absent (same ▸ member)⟩
  unfold shapeOf
  split
  next =>
    constructor
    · intro shape
      cases shape
    · rintro ⟨same, nonempty, _⟩
      cases same
      exact absurd rfl nonempty
  next text notTerminator =>
    split
    next equalsSign value found =>
      constructor
      · intro shape
        cases shape
      · rintro ⟨same, _, absent⟩
        cases same
        rw [noValue.mpr absent] at found
        cases found
    next found =>
      constructor
      · intro shape
        cases shape
        refine ⟨rfl, ?_, noValue.mp found⟩
        rintro rfl
        exact notTerminator rfl
      · rintro ⟨same, _, _⟩
        cases same
        rfl
  next letter letters _ notLong =>
    constructor
    · intro shape
      cases shape
    · rintro ⟨same, _, _⟩
      cases same
      exact (notLong rfl).elim
  next notLong _ =>
    constructor
    · intro shape
      cases shape
    · rintro ⟨same, _, _⟩
      exact absurd same (notLong _)

theorem Given.json_of_set {next : Given} {setting : Setting} {value : String}
    (result : given.set setting value = .ok next) : next.json = given.json := by
  unfold Given.set at result
  cases setting with
  | root =>
      obtain ⟨_, _, rfl⟩ := map_eq_ok_iff.mp result
      rfl
  | config =>
      obtain ⟨_, _, rfl⟩ := map_eq_ok_iff.mp result
      rfl
  | unit =>
      simp only at result
      split at result
      next => cases result
      next =>
        split at result
        next => cases result
        next =>
          cases result
          rfl

theorem Given.json_of_askJson {next : Given} (result : given.askJson = .ok next) : next.json = true := by
  unfold askJson at result
  split at result
  next => cases result
  next =>
    cases result
    rfl

private theorem shapeOf_eq_json_iff {argument : String} :
    shapeOf argument.toList = .long "json".toList none ↔ argument = "--json" := by
  have listed : '-' :: '-' :: "json".toList = "--json".toList := by decide +kernel
  rw [shapeOf_eq_long_iff, listed, String.toList_inj]
  constructor
  · intro spelled
    exact spelled.1
  · intro same
    exact ⟨same, by decide +kernel, by decide +kernel⟩

/-- JSON is asked for by the one argument that demands it. -/
theorem Accepted.json_iff (accepted : Accepted given pending arguments parsed) :
    parsed.json = true ↔ given.json = true ∨ "--json" ∈ arguments := by
  have demand : shapeOf "--json".toList = .long "json".toList none := shapeOf_eq_json_iff.mpr rfl
  -- A setting leaves the demand as it is, and no argument of another shape is the demand.
  have otherwise {argument : String} {shape : Shape} (hasShape : shapeOf argument.toList = shape)
      (notDemand : shape ≠ .long "json".toList none) : "--json" ≠ argument := by
    rintro rfl
    exact notDemand (hasShape.symm.trans demand)
  induction accepted with
  | finished => simp [Given.toArguments]
  | terminated shape =>
      have other := otherwise shape Shape.noConfusion
      simp [Given.toArguments, other]
  | value shape result _ ih =>
      have other := otherwise shape Shape.noConfusion
      refine ih.trans ?_
      rw [Given.json_of_set result, List.mem_cons, or_iff_right other]
  | assigned shape _ result _ ih =>
      have other := otherwise shape (by intro same; cases same)
      refine ih.trans ?_
      rw [Given.json_of_set result, List.mem_cons, or_iff_right other]
  | named shape known _ ih =>
      have other := otherwise shape (by rintro ⟨⟩; cases known)
      refine ih.trans ?_
      rw [List.mem_cons, or_iff_right other]
  | json shape result _ ih =>
      have isDemand := shapeOf_eq_json_iff.mp shape
      simp [ih, Given.json_of_askJson result, isDemand]

end BlockInventory.CommandLine
