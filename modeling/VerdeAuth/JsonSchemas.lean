import VerdeAuth.JavaScriptCoercions

/-!
# JSON schemas

The part of JSON Schema (draft-07) in which records are described: types, required
and typed properties, and assertions on strings and numbers. An assertion says
nothing of values of another type, and a property that is absent is not checked.
-/

namespace VerdeAuth.JsonSchemas

open JsonTexts

/-- Numbers of which it is known which are integers. -/
class SchemaNumber (N : Type) extends JsNumber N where
  isInteger : N → Bool
  isInteger_ofNat : ∀ n, isInteger (ofNat n) = true

inductive ScalarType where
  | string
  | number
  | integer
  deriving DecidableEq

inductive Assertion where
  | enum (values : List String)
  | const (value : String)
  | pattern (regex : List Char → Bool)
  | format (grammar : List Char → Bool)
  | minimum (n : ℕ)
  | maximum (n : ℕ)

inductive Schema where
  | scalar (type : ScalarType) (assertions : List Assertion)
  | object (required : List String) (properties : List (String × Schema))

section Acceptance

variable {N : Type} [SchemaNumber N]

def ScalarType.holds : ScalarType → Json N → Bool
  | .string, .str _ => true
  | .number, .num _ => true
  | .integer, .num n => SchemaNumber.isInteger n
  | _, _ => false

def Assertion.holds : Assertion → Json N → Bool
  | .enum values, v => values.any fun s => match v with
    | .str t => s = t
    | _ => false
  | .const s, v => match v with
    | .str t => s = t
    | _ => false
  | .pattern regex, .str s => regex s.toList
  | .format grammar, .str s => grammar s.toList
  | .minimum n, .num x => !JsNumber.lt x (JsNumber.ofNat n)
  | .maximum n, .num x => !JsNumber.lt (JsNumber.ofNat n) x
  | _, _ => true

mutual

def Schema.accepts : Schema → Json N → Bool
  | .scalar type assertions, v => type.holds v && assertions.all fun a => a.holds v
  | .object required properties, .obj ps =>
    (required.all fun k => ((Json.obj ps).get? k).isSome) && acceptsProperties properties (.obj ps)
  | .object _ _, _ => false

def acceptsProperties : List (String × Schema) → Json N → Bool
  | [], _ => true
  | (k, schema) :: properties, v =>
    (match v.get? k with
      | some w => schema.accepts w
      | none => true) && acceptsProperties properties v

end

end Acceptance

mutual

/-- The types a schema asks for, without its assertions and required properties. -/
def Schema.types : Schema → Schema
  | .scalar type _ => .scalar type []
  | .object _ properties => .object [] (typesOf properties)

def typesOf : List (String × Schema) → List (String × Schema)
  | [] => []
  | (k, schema) :: properties => (k, schema.types) :: typesOf properties

end

section Rules

variable {N : Type} [SchemaNumber N] {properties : List (String × Schema)} {v w : Json N}

/-- The schema of a property accepts what is there, if anything is. -/
def AcceptsAt (v : Json N) (k : String) (schema : Schema) : Prop :=
  ∀ w, v.get? k = some w → schema.accepts w = true

theorem acceptsAt_none {k : String} {schema : Schema} (h : v.get? k = none) :
    AcceptsAt v k schema := by
  intro w hw
  rw [h] at hw
  cases hw

theorem acceptsAt_some {k : String} {schema : Schema} (h : v.get? k = some w) :
    AcceptsAt v k schema ↔ schema.accepts w = true := by
  constructor
  · intro hall
    exact hall w h
  · intro haccepts w' hw'
    obtain rfl : w = w' := Option.some.inj (h.symm.trans hw')
    exact haccepts

theorem acceptsProperties_iff :
    acceptsProperties properties v = true ↔ ∀ p ∈ properties, AcceptsAt v p.1 p.2 := by
  induction properties with
  | nil => simp [acceptsProperties]
  | cons p properties ih =>
    obtain ⟨k, schema⟩ := p
    rw [acceptsProperties, Bool.and_eq_true, ih, List.forall_mem_cons]
    refine and_congr_left fun _ => ?_
    cases h : v.get? k with
    | none => exact iff_of_true rfl (acceptsAt_none h)
    | some w => exact (acceptsAt_some h).symm

/-- A record is accepted when it has what is required and each property is accepted. -/
theorem accepts_object {required : List String} {ps : Members N} :
    (Schema.object required properties).accepts (.obj ps) = true ↔
      (∀ k ∈ required, (Json.obj ps).get? k ≠ none) ∧
        ∀ p ∈ properties, AcceptsAt (.obj ps) p.1 p.2 := by
  rw [Schema.accepts, Bool.and_eq_true, acceptsProperties_iff, List.all_eq_true]
  simp only [Option.isSome_iff_ne_none]

theorem exists_members {required : List String}
    (h : (Schema.object required properties).accepts v = true) : ∃ ps, v = .obj ps := by
  cases v with
  | obj ps => exact ⟨ps, rfl⟩
  | _ => cases h

@[simp] theorem accepts_string {assertions : List Assertion} (s : String) :
    (Schema.scalar .string assertions).accepts (.str s : Json N) =
      assertions.all fun a => a.holds (.str s : Json N) := rfl

end Rules

instance naturalSchemaNumbers : SchemaNumber ℕ where
  isInteger _ := true
  isInteger_ofNat _ := rfl

end VerdeAuth.JsonSchemas
