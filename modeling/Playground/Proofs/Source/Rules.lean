import Playground.Proofs.Source.Literals
import Playground.Source.Module

/-!
# Every rule leads on

The readers of all constructs, in the order of their definitions. That a reader
leads on follows from the readers that it consists of, so an instance is found
once the definition is opened, and where a definition asks what comes next, once
the cases are told apart. Of expressions it is shown besides that only a string
literal is a literal, and that nothing may be appended to it.
-/

namespace Playground.Source

open Reader

-- The instance for a reader is as large as the reader.
set_option synthInstance.maxSize 4000

variable {finds : Bool} {g : Grammar} [g.Sound]

/-! ## Names -/

instance advances_privateName : Advances finds privateName := by
  unfold privateName
  infer_instance

instance advances_propertyName : Advances true (propertyName g) := by
  unfold propertyName
  infer_instance

instance advances_modifiers {order : List String} : Advances finds (modifiers order) := by
  have all (found : List String) : Advances finds (modifiersFrom found order) := by
    induction order generalizing found with
    | nil =>
        unfold modifiersFrom
        infer_instance
    | cons m order ih =>
        have later (found : List String) : Advances finds (modifiersFrom found order) := ih found
        unfold modifiersFrom
        infer_instance
  exact all []

instance advances_typeArguments : Advances true (typeArguments g) := by
  unfold typeArguments
  infer_instance

instance advances_typeParameter : Advances true (typeParameter g) := by
  unfold typeParameter
  infer_instance

instance advances_typeParameters : Advances true (typeParameters g) := by
  unfold typeParameters
  infer_instance

instance advances_typeNote {ending : Ending} : Advances true (typeNote g ending) := by
  unfold typeNote
  infer_instance

instance advances_predicate {ending : Ending} : Advances true (predicate g ending) := by
  unfold predicate
  infer_instance

instance advances_result {ending : Ending} : Advances true (result g ending) := by
  unfold result
  infer_instance

instance advances_signature {ending : Ending} : Advances true (signature g ending) := by
  unfold signature
  infer_instance

instance advances_arguments : Advances true (arguments g) := by
  unfold arguments
  infer_instance

/-! ## Templates -/

/-- Taking as many characters as there are and reading on goes on. -/
theorem goes_of_take {α : Type} {k : List Char → Reader α} [∀ cs, Advances finds (k cs)] {n : Nat}
    {c d : Cursor} {a : α} (room : n ≤ c.rest.length) (h : (take n >>= k) c = some (a, d)) :
    c.Goes finds d := by
  obtain ⟨_, _, taken, h⟩ := bind_eq_some_iff.mp h
  obtain ⟨-, rfl⟩ := take_eq_some_iff.mp taken
  exact (Cursor.Leads.advance c room).goes.trans (Advances.goes h)

/-- A part of a template: an escape, a substitution or a run of plain characters. -/
def templatePart (substitution : Reader Unit) (rest : List Char) : Reader Unit :=
  match rest with
  | '\\' :: rest =>
    match escape? rest with
    | some n => do let _ ← take (n + 1)
    | none => failure
  | '$' :: '{' :: _ => do
    let _ ← take 2
    substitution
    mark "\x7d"
  | rest => do
    let n := templateRun 0 rest
    guard (n ≠ 0)
    let _ ← take n

theorem template_eq (substitution : Reader Unit) : template substitution = (do
    mark "\u0060"
    let _ ← iterate (fun () => do templatePart substitution (← get).rest) ()
    guard ((← get).rest.head? = some '\u0060')
    let _ ← take 1) :=
  rfl

instance advances_templatePart {substitution : Reader Unit} [Advances finds substitution] :
    Advances finds (do templatePart substitution (← get).rest) where
  goes {c d u} h := by
    obtain ⟨_, _, got, h⟩ := bind_eq_some_iff.mp h
    cases got
    generalize there : c.rest = rest at h
    unfold templatePart at h
    split at h
    · next rest =>
        cases found : escape? rest with
        | none =>
            rw [found] at h
            exact absurd h failure_ne_some
        | some n =>
            rw [found] at h
            refine goes_of_take ?_ h
            have := escape?_le found
            rw [there, List.length_cons]
            omega
    · refine goes_of_take ?_ h
      rw [there, List.length_cons, List.length_cons]
      omega
    · obtain ⟨_, _, some, h⟩ := bind_eq_some_iff.mp h
      obtain ⟨-, rfl⟩ := guard_eq_some_iff.mp some
      refine goes_of_take ?_ h
      rw [there]
      exact Nat.le_trans (templateRun_le 0 _) (Nat.le_of_eq (Nat.zero_add _))

instance advances_template {substitution : Reader Unit} [Advances finds substitution] :
    Advances finds (template substitution) where
  goes h := by
    rw [template_eq] at h
    obtain ⟨_, _, opened, h⟩ := bind_eq_some_iff.mp h
    obtain ⟨_, e, parts, h⟩ := bind_eq_some_iff.mp h
    obtain ⟨_, _, got, h⟩ := bind_eq_some_iff.mp h
    cases got
    obtain ⟨_, _, there, h⟩ := bind_eq_some_iff.mp h
    obtain ⟨there, rfl⟩ := guard_eq_some_iff.mp there
    have room : 1 ≤ e.rest.length := by
      cases rest : e.rest with
      | nil =>
          rw [rest] at there
          cases there
      | cons c rest => exact Nat.succ_le_succ (Nat.zero_le _)
    exact ((leads_of_mark opened).goes.trans (Advances.goes parts)).trans (goes_of_take room h)

/-! ## Types -/

instance advances_indexName : Advances true (indexName g) := by
  unfold indexName
  infer_instance

instance advances_indexSignature : Advances true (indexSignature g) := by
  unfold indexSignature
  infer_instance

instance advances_callSignature : Advances true (callSignature g) := by
  unfold callSignature
  infer_instance

instance advances_namedSignature : Advances true (namedSignature g) := by
  unfold namedSignature
  infer_instance

instance advances_typeMember : Advances true (typeMember g) := by
  unfold typeMember
  infer_instance

instance advances_memberSeparator : Advances finds memberSeparator := by
  unfold memberSeparator
  infer_instance

instance advances_objectType : Advances true (objectType g) := by
  unfold objectType
  infer_instance

instance advances_tupleMember : Advances true (tupleMember g) := by
  unfold tupleMember
  infer_instance

instance advances_typeProperty : Advances finds typeProperty := by
  unfold typeProperty
  infer_instance

instance advances_importType : Advances true (importType g) := by
  unfold importType
  infer_instance

instance advances_typeQuery : Advances true (typeQuery g) := by
  unfold typeQuery
  infer_instance

instance advances_typeName : Advances true (typeName g) := by
  unfold typeName
  infer_instance

instance advances_functionType {ending : Ending} : Advances true (functionType g ending) := by
  unfold functionType
  infer_instance

instance advances_wordType {ending : Ending} : Advances true (wordType g ending) := by
  unfold wordType
  infer_instance

instance advances_typeOperand {ending : Ending} : Advances true (typeOperand g ending) := by
  unfold typeOperand
  refine @advances_bind _ _ _ _ _ inferInstance fun next => ?_
  split <;> infer_instance

instance advances_typeSuffix {ending : Ending} : Advances true (typeSuffix g ending) := by
  unfold typeSuffix
  infer_instance

instance advances_typeOperator {ending : Ending} : Advances true (typeOperator g ending) := by
  unfold typeOperator
  refine @advances_bind _ _ _ _ _ inferInstance fun _ => ?_
  refine @advances_bind _ _ _ _ _ inferInstance fun _ => ?_
  refine @advances_bind _ _ _ _ _ inferInstance fun next => ?_
  split <;> infer_instance

instance advances_typeBody {ending : Ending} : Advances true (typeBody g ending) := by
  unfold typeBody
  infer_instance

/-! ## Members -/

instance advances_decorator : Advances true (decorator g) := by
  unfold decorator
  infer_instance

instance advances_decorators : Advances true (decorators g) := by
  unfold decorators
  infer_instance

instance advances_methodRest : Advances true (methodRest g) := by
  unfold methodRest
  infer_instance

instance advances_modifiedMethod : Advances true (modifiedMethod g) := by
  unfold modifiedMethod
  infer_instance

instance advances_namedEntry : Advances true (namedEntry g) := by
  unfold namedEntry
  refine @advances_bind _ _ _ _ _ inferInstance fun _ => ?_
  refine @advances_bind _ _ _ _ _ inferInstance fun _ => ?_
  refine @advances_bind _ _ _ _ _ inferInstance fun next => ?_
  split <;> infer_instance

instance advances_objectEntry : Advances true (objectEntry g) := by
  unfold objectEntry
  infer_instance

instance advances_objectShape : Advances true (objectShape g) := by
  unfold objectShape
  infer_instance

instance advances_arrayElement : Advances true (arrayElement g) := by
  unfold arrayElement
  infer_instance

instance advances_arrayShape : Advances true (arrayShape g) := by
  unfold arrayShape
  infer_instance

instance unlit_objectShape : Unlit (objectShape g) := by
  unfold objectShape
  infer_instance

instance unlit_arrayShape : Unlit (arrayShape g) := by
  unfold arrayShape
  infer_instance

instance advances_bindingPattern : Advances true (bindingPattern g) := by
  have ofTarget (s : Shape) : Advances true (match s.target with
      | some p => pure p
      | none => failure : Reader Pattern) := by
    split <;> infer_instance
  unfold bindingPattern
  refine @advances_bind _ _ _ _ _ inferInstance fun next => ?_
  split <;> infer_instance

instance advances_parameter : Advances true (parameter g) := by
  unfold parameter
  infer_instance

instance advances_parametersBody : Advances true (parametersBody g) := by
  unfold parametersBody
  infer_instance

instance advances_memberEnd {ending : Ending} : Advances finds (memberEnd ending) := by
  unfold memberEnd
  infer_instance

instance advances_classMember : Advances true (classMember g) := by
  unfold classMember
  infer_instance

instance advances_classElement : Advances true (classElement g) := by
  unfold classElement
  infer_instance

instance advances_heritage : Advances true (heritage g) := by
  unfold heritage
  infer_instance

instance advances_className : Advances finds className := by
  unfold className
  infer_instance

instance advances_classRest : Advances true (classRest g) := by
  unfold classRest
  infer_instance

/-! ## Expressions -/

instance advances_objectAhead : Advances finds objectAhead := by
  unfold objectAhead
  infer_instance

instance advances_arrowBody {place : Place} : Advances true (arrowBody g place) := by
  unfold arrowBody
  infer_instance

instance advances_arrowFunction {place : Place} : Advances true (arrowFunction g place) := by
  unfold arrowFunction
  infer_instance

instance advances_function : Advances true (function g) := by
  unfold function
  infer_instance

instance advances_classValue : Advances true (classValue g) := by
  unfold classValue
  infer_instance

instance advances_parenthesized : Advances true (parenthesized g) := by
  unfold parenthesized
  infer_instance

instance advances_importOperand : Advances true (importOperand g) := by
  unfold importOperand
  infer_instance

instance advances_withOperand {place : Place} : Advances true (withOperand g place) := by
  unfold withOperand
  infer_instance

section Operands

variable {place : Place} {p : Reader Shape} [Advances true p]

instance advances_construction : Advances true (construction g p) := by
  unfold construction
  infer_instance

instance advances_wordOperand : Advances true (wordOperand g place p) := by
  unfold wordOperand
  infer_instance

instance advances_operandWith : Advances true (operandWith g place p) := by
  unfold operandWith
  refine @advances_bind _ _ _ _ _ inferInstance fun _ => ?_
  refine @advances_bind _ _ _ _ _ inferInstance fun next => ?_
  split <;> infer_instance

end Operands

instance advances_constructorOperand {place : Place} :
    Advances true (constructorOperand g place) := by
  unfold constructorOperand
  infer_instance

instance advances_operand {place : Place} : Advances true (operand g place) := by
  unfold operand
  infer_instance

instance advances_operandAhead : Advances finds operandAhead := by
  unfold operandAhead
  refine @advances_bind _ _ _ _ _ inferInstance fun next => ?_
  split <;> infer_instance

instance advances_appendedTypes {place : Place} : Advances true (appendedTypes g place) := by
  unfold appendedTypes
  infer_instance

instance advances_append {place : Place} {s : Shape} : Advances true (append g place s) := by
  have behindMark (next : List Char) : Advances true (match next with
      | '(' :: _ => do let _ ← arguments g; return {}
      | '[' :: _ => do mark "["; let _ ← g.values .inner; mark "]"; return Shape.property
      | '<' :: _ => do typeArguments g; let _ ← arguments g; return {}
      | _ => do privateName <|> (do let _ ← word); return Shape.property : Reader Shape) := by
    split <;> infer_instance
  unfold append
  refine @advances_bind _ _ _ _ _ inferInstance fun _ => ?_
  refine @advances_bind _ _ _ _ _ inferInstance fun _ => ?_
  refine @advances_bind _ _ _ _ _ inferInstance fun _ => ?_
  refine @advances_bind _ _ _ _ _ inferInstance fun next => ?_
  split <;> infer_instance

instance advances_readOperator : Advances finds readOperator := by
  unfold readOperator
  refine @advances_bind _ _ _ _ _ inferInstance fun next => ?_
  split <;> infer_instance

instance advances_questionMark : Advances finds questionMark := by
  unfold questionMark
  refine @advances_bind _ _ _ _ _ inferInstance fun next => ?_
  split
  · refine @advances_bind _ _ _ _ _ inferInstance fun _ => ?_
    split <;> infer_instance
  · infer_instance

instance advances_conditional {place : Place} : Advances true (conditional g place) := by
  unfold conditional
  infer_instance

instance advances_operation {place : Place} {s : Shape} : Advances true (operation g place s) := by
  unfold operation
  infer_instance

instance advances_expressionBody {place : Place} : Advances true (expressionBody g place) := by
  unfold expressionBody
  infer_instance

/-! ## Declarations -/

instance advances_declarationAhead : Advances finds declarationAhead := by
  unfold declarationAhead
  infer_instance

instance advances_declarator {closed : Bool} : Advances true (declarator g closed) := by
  unfold declarator
  infer_instance

instance advances_declarators {closed : Bool} : Advances true (declarators g closed) := by
  unfold declarators
  infer_instance

instance advances_variableDeclaration : Advances true (variableDeclaration g) := by
  unfold variableDeclaration
  infer_instance

instance advances_functionDeclaration : Advances true (functionDeclaration g) := by
  unfold functionDeclaration
  infer_instance

instance advances_classDeclaration : Advances true (classDeclaration g) := by
  unfold classDeclaration
  infer_instance

instance advances_enumDeclaration : Advances true (enumDeclaration g) := by
  unfold enumDeclaration
  infer_instance

instance advances_interfaceDeclaration : Advances true (interfaceDeclaration g) := by
  unfold interfaceDeclaration
  infer_instance

instance advances_typeDeclaration : Advances true (typeDeclaration g) := by
  unfold typeDeclaration
  infer_instance

instance advances_dottedName : Advances finds dottedName := by
  unfold dottedName
  infer_instance

instance advances_namespaceDeclaration : Advances true (namespaceDeclaration g) := by
  unfold namespaceDeclaration
  infer_instance

instance advances_ambientDeclaration : Advances true (ambientDeclaration g) := by
  unfold ambientDeclaration
  infer_instance

instance advances_aliasDeclaration : Advances finds aliasDeclaration := by
  unfold aliasDeclaration
  infer_instance

instance advances_declarationBody : Advances true (declarationBody g) := by
  unfold declarationBody
  infer_instance

/-! ## Statements -/

instance advances_exportName : Advances finds exportName := by
  unfold exportName
  infer_instance

instance advances_givenName {second : Reader Text} [Advances finds second] :
    Advances finds (givenName second) := by
  unfold givenName
  infer_instance

instance advances_typeOnly : Advances finds typeOnly := by
  unfold typeOnly
  infer_instance

instance advances_typeOnlyAhead : Advances finds typeOnlyAhead := by
  unfold typeOnlyAhead
  infer_instance

instance advances_importedName : Advances finds importedName := by
  unfold importedName
  infer_instance

instance advances_importSpecifier : Advances finds importSpecifier := by
  unfold importSpecifier
  infer_instance

instance advances_exportSpecifier : Advances finds exportSpecifier := by
  unfold exportSpecifier
  infer_instance

instance advances_specifiers {p : Reader (Text × Text)} [Advances finds p] :
    Advances finds (specifiers p) := by
  unfold specifiers
  infer_instance

instance advances_fromSource : Advances finds fromSource := by
  unfold fromSource
  infer_instance

instance advances_wholeModule : Advances finds wholeModule := by
  unfold wholeModule
  infer_instance

instance advances_importClause : Advances finds importClause := by
  unfold importClause
  infer_instance

instance advances_importEquals : Advances finds importEquals := by
  unfold importEquals
  infer_instance

instance advances_importBody : Advances finds importBody := by
  unfold importBody
  infer_instance

instance advances_importStatement : Advances true (importStatement g) := by
  unfold importStatement
  infer_instance

instance advances_exportClause : Advances finds exportClause := by
  unfold exportClause
  infer_instance

/-- What a default stands for: a declaration that was found, or else a value. -/
theorem advances_defaultRest (g : Grammar) [g.Sound] (start : Nat) (found : Option Declaration) :
    Advances true (match found with
      | some d => return .declaration true start d
      | none => do
        let _ ← g.valueAt { ending := .value }
        semicolon .value
        return .value start : Reader Export) := by
  split <;> infer_instance

instance advances_exportRest : Advances true (exportRest g) := by
  have declared := advances_defaultRest g
  unfold exportRest
  refine @advances_bind _ _ _ _ _ inferInstance fun next => ?_
  split <;> infer_instance

instance advances_exportStatement : Advances true (exportStatement g) := by
  unfold exportStatement
  infer_instance

instance advances_condition : Advances true (condition g) := by
  unfold condition
  infer_instance

instance advances_memberLoopHead : Advances true (memberLoopHead g) := by
  unfold memberLoopHead
  infer_instance

instance advances_countingLoopHead : Advances true (countingLoopHead g) := by
  unfold countingLoopHead
  infer_instance

instance advances_switchCase : Advances true (switchCase g) := by
  unfold switchCase
  infer_instance

theorem advances_of_mem_wordStatements {w : String} {p : Reader Unit}
    (mem : (w, p) ∈ wordStatements g) : Advances true p := by
  simp only [wordStatements, List.mem_cons, List.not_mem_nil, or_false, Prod.mk.injEq] at mem
  rcases mem with ⟨-, rfl⟩ | ⟨-, rfl⟩ | ⟨-, rfl⟩ | ⟨-, rfl⟩ | ⟨-, rfl⟩ | ⟨-, rfl⟩ | ⟨-, rfl⟩ |
    ⟨-, rfl⟩ | ⟨-, rfl⟩ | ⟨-, rfl⟩ | ⟨-, rfl⟩ | ⟨-, rfl⟩ <;> infer_instance

instance advances_valueStatement : Advances true (valueStatement g) := by
  unfold valueStatement
  infer_instance

instance advances_importAhead : Advances finds importAhead := by
  unfold importAhead
  infer_instance

instance advances_exportIsName : Advances finds exportIsName := by
  unfold exportIsName
  infer_instance

instance advances_exportOrValue : Advances true (exportOrValue g) := by
  unfold exportOrValue
  infer_instance

instance advances_statementBody : Advances true (statementBody g) := by
  unfold statementBody
  refine @advances_bind _ _ _ _ _ inferInstance fun _ => ?_
  refine @advances_bind _ _ _ _ _ inferInstance fun next => ?_
  split
  · infer_instance
  · infer_instance
  · infer_instance
  · refine @advances_bind _ _ _ _ _ inferInstance fun w => ?_
    simp only []
    split
    · next rest found =>
        have := advances_of_mem_wordStatements (List.mem_of_find?_eq_some found)
        infer_instance
    · infer_instance

/-! ## Literals -/

instance literal_bind {α : Type} {x : Reader α} {k : α → Reader Shape} [Advances false x]
    [∀ a, Literal (k a)] : Literal (x >>= k) where
  quotes h lit := by
    obtain ⟨a, e, read, h⟩ := bind_eq_some_iff.mp h
    have leads := leads_of_quiet read
    obtain ⟨same, quotes⟩ := Literal.quotes h lit
    exact ⟨same.trans leads.calls, quotes.after leads⟩

instance literal_string :
    Literal (do return { literal := some (← string) } : Reader Shape) where
  quotes h lit := by
    obtain ⟨site, e, read, h⟩ := bind_eq_some_iff.mp h
    obtain ⟨rfl, rfl⟩ := pure_eq_some_iff.mp h
    cases lit
    obtain ⟨leads, quotes⟩ := quotes_of_string read
    exact ⟨leads.calls, quotes⟩

section

variable {place : Place} {p : Reader Shape} {s : Shape}

instance unlit_arrowFunction : Unlit (arrowFunction g place) := by
  unfold arrowFunction
  infer_instance

instance unlit_function : Unlit (function g) := by
  unfold function
  infer_instance

instance unlit_classValue : Unlit (classValue g) := by
  unfold classValue
  infer_instance

instance unlit_parenthesized : Unlit (parenthesized g) := by
  unfold parenthesized
  infer_instance

instance unlit_importOperand : Unlit (importOperand g) := by
  unfold importOperand
  infer_instance

instance unlit_withOperand : Unlit (withOperand g place) := by
  unfold withOperand
  infer_instance

instance unlit_construction : Unlit (construction g p) := by
  unfold construction
  infer_instance

instance unlit_wordOperand : Unlit (wordOperand g place p) := by
  unfold wordOperand
  infer_instance

instance literal_operandWith : Literal (operandWith g place p) := by
  unfold operandWith
  refine @literal_bind _ _ _ inferInstance fun _ => ?_
  refine @literal_bind _ _ _ inferInstance fun next => ?_
  split <;> infer_instance

instance unlit_appendedTypes : Unlit (appendedTypes g place) := by
  unfold appendedTypes
  infer_instance

instance unlit_append : Unlit (append g place s) := by
  have behindMark (next : List Char) : Unlit (match next with
      | '(' :: _ => do let _ ← arguments g; return {}
      | '[' :: _ => do mark "["; let _ ← g.values .inner; mark "]"; return Shape.property
      | '<' :: _ => do typeArguments g; let _ ← arguments g; return {}
      | _ => do privateName <|> (do let _ ← word); return Shape.property : Reader Shape) := by
    split <;> infer_instance
  unfold append
  refine @unlit_bind _ _ _ fun _ => ?_
  refine @unlit_bind _ _ _ fun _ => ?_
  refine @unlit_bind _ _ _ fun _ => ?_
  refine @unlit_bind _ _ _ fun next => ?_
  split <;> infer_instance

instance unlit_conditional : Unlit (conditional g place) := by
  unfold conditional
  infer_instance

instance unlit_operation : Unlit (operation g place s) := by
  unfold operation
  infer_instance

omit [g.Sound] in
/-- What is appended to is no literal any more. -/
theorem eq_or_unlit_of_iterate {t : Shape} {c d : Cursor}
    (h : iterate (append g place) s c = some (t, d)) : t = s ∧ d = c ∨ t.literal = none := by
  have all (fuel : Nat) {s : Shape} {c : Cursor}
      (h : iterateFrom (append g place) fuel s c = some (t, d)) :
      t = s ∧ d = c ∨ t.literal = none := by
    induction fuel generalizing s c with
    | zero =>
        cases h
        exact .inl ⟨rfl, rfl⟩
    | succ fuel ih =>
        unfold iterateFrom at h
        split at h
        · next read =>
            rcases ih h with ⟨rfl, rfl⟩ | none
            · exact .inr (Unlit.unlit read)
            · exact .inr none
        · cases h
          exact .inl ⟨rfl, rfl⟩
  exact all _ h

instance literal_expressionBody : Literal (expressionBody g place) where
  quotes h lit := by
    obtain ⟨s, e, first, h⟩ := bind_eq_some_iff.mp h
    obtain ⟨t, e', appended, h⟩ := bind_eq_some_iff.mp h
    rcases orElse_eq_some h with h | ⟨-, h⟩
    · rw [Unlit.unlit h] at lit
      cases lit
    · obtain ⟨rfl, rfl⟩ := pure_eq_some_iff.mp h
      rcases eq_or_unlit_of_iterate appended with ⟨rfl, rfl⟩ | none
      · exact (literal_operandWith (p := constructorOperand g place)).quotes first lit
      · rw [none] at lit
        cases lit

end

/-! ## The grammar -/

theorem sound_ruleBody (g : Grammar) [g.Sound] : (ruleBody g).Sound where
  advances r := by
    cases r with
    | expression place => exact (inferInstance : Advances true (expressionBody g place))
    | type ending => exact (inferInstance : Advances true (typeBody g ending))
    | parameters => exact (inferInstance : Advances true (parametersBody g))
    | statement => exact (inferInstance : Advances true (statementBody g))
    | declaration => exact (inferInstance : Advances true (declarationBody g))
  literal place := (inferInstance : Literal (expressionBody g place))

instance sound_grammar (depth : Nat) : (grammar depth).Sound := by
  induction depth with
  | zero => exact ⟨fun _ => ⟨fun h => absurd h failure_ne_some⟩,
      fun _ => ⟨fun h => absurd h failure_ne_some⟩⟩
  | succ depth ih => exact sound_ruleBody (grammar depth)

end Playground.Source
