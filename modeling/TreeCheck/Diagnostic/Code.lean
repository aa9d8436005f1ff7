/-
The codes of diagnostics. The thousands digit of a code is its category. A code has a
title, and most have a message with places for the arguments of the diagnostic.
-/

namespace TreeCheck

structure Code where
  number : Nat
  deriving DecidableEq, Repr, Inhabited

namespace Code

def unknown : Code := ⟨0⟩

/-! ### Bindings and names -/

def scopeInfo : Code := ⟨1000⟩
def redeclared : Code := ⟨1001⟩
def unresolved : Code := ⟨1002⟩
def selfReference : Code := ⟨1003⟩
def undeclaredClass : Code := ⟨1004⟩
def undeclaredField : Code := ⟨1005⟩
def undeclaredType : Code := ⟨1006⟩
def shadows : Code := ⟨1007⟩
def undeclaredMethod : Code := ⟨1008⟩
def importCycle : Code := ⟨1009⟩
def thisOutsideClass : Code := ⟨1010⟩
def unresolvedImport : Code := ⟨1011⟩
def baseNotClass : Code := ⟨1012⟩
def inheritanceCycle : Code := ⟨1013⟩
def undeclaredFunction : Code := ⟨1014⟩

/-! ### Types -/

def typeInfo : Code := ⟨2000⟩
def mismatchAssign : Code := ⟨2001⟩
def mismatchReturn : Code := ⟨2002⟩
def conditionNotBool : Code := ⟨2003⟩
def badOperands : Code := ⟨2004⟩
def badOperand : Code := ⟨2005⟩
def invalidCast : Code := ⟨2006⟩
def unknownInitField : Code := ⟨2007⟩
def duplicateInitField : Code := ⟨2008⟩
def constraintFailed : Code := ⟨2009⟩
def voidReturnValue : Code := ⟨2010⟩
def missingReturn : Code := ⟨2011⟩
def noMatchingOverload : Code := ⟨2012⟩
def notIndexable : Code := ⟨2013⟩
def notClass : Code := ⟨2014⟩
def templateArgCount : Code := ⟨2015⟩
def unionMember : Code := ⟨2016⟩
def indexNotInt : Code := ⟨2017⟩
def caseValue : Code := ⟨2018⟩
def loopBound : Code := ⟨2019⟩
def untypedEmptyList : Code := ⟨2020⟩
def listElement : Code := ⟨2021⟩
def returnValueMissing : Code := ⟨2022⟩
def notAssignable : Code := ⟨2023⟩
def tooManyIndices : Code := ⟨2024⟩

/-! ### Modifiers -/

def modifierInfo : Code := ⟨3000⟩
def finalBase : Code := ⟨3001⟩
def templatedBase : Code := ⟨3002⟩
def abstractIncomplete : Code := ⟨3003⟩
def recursion : Code := ⟨3004⟩
def finalOverride : Code := ⟨3005⟩
def abstractInstantiation : Code := ⟨3006⟩
def privateAccess : Code := ⟨3007⟩
def constAssign : Code := ⟨3008⟩
def pureSideEffect : Code := ⟨3009⟩
def bodilessConcrete : Code := ⟨3010⟩

/-! ### Configuration -/

def configInfo : Code := ⟨4000⟩
def badCutoff : Code := ⟨4001⟩
def cutoffRange : Code := ⟨4002⟩
def unknownPass : Code := ⟨4003⟩
def badMode : Code := ⟨4004⟩
def noPasses : Code := ⟨4005⟩
def passOrder : Code := ⟨4006⟩
def badSetting : Code := ⟨4007⟩

/-! ### Categories and titles -/

inductive Category where
  | unknown | scope | type | modifier | config
  deriving DecidableEq, Repr

namespace Category

/-- All of them, in the order of their numbers, which start at zero. -/
def all : List Category := [.unknown, .scope, .type, .modifier, .config]

def name : Category → String
  | .unknown => "unknown"
  | .scope => "scope"
  | .type => "type"
  | .modifier => "modifier"
  | .config => "config"

end Category

def category (code : Code) : Category :=
  match code.number / 1000 with
  | 1 => .scope
  | 2 => .type
  | 3 => .modifier
  | 4 => .config
  | _ => .unknown

/-- The code as it is shown, for instance `SCP1002`. -/
def id (code : Code) : String :=
  match code.category with
  | .scope => s!"SCP{code.number}"
  | .type => s!"TYP{code.number}"
  | .modifier => s!"MOD{code.number}"
  | .config => s!"CFG{code.number}"
  | .unknown => "E0000"

def title (code : Code) : String :=
  match code.number with
  | 1000 => "Scope information"
  | 1001 => "Redeclaration in the same scope"
  | 1002 => "Unresolved reference"
  | 1003 => "Self-referential initializer"
  | 1004 => "Undeclared class"
  | 1005 => "Undeclared field"
  | 1006 => "Undeclared type"
  | 1007 => "Name shadows a declaration in an enclosing scope"
  | 1008 => "Undeclared method"
  | 1009 => "Import cycle"
  | 1010 => "'this' outside of a class"
  | 1011 => "Unresolved import"
  | 1012 => "Base is not a class"
  | 1013 => "Inheritance cycle"
  | 1014 => "Undeclared function"
  | 2000 => "Type information"
  | 2001 => "Mismatched assignment type"
  | 2002 => "Mismatched return type"
  | 2003 => "Condition is not boolean"
  | 2004 => "Invalid operand types"
  | 2005 => "Invalid operand type"
  | 2006 => "Invalid cast"
  | 2007 => "Unknown constructor field"
  | 2008 => "Duplicate constructor field"
  | 2009 => "Template constraint not satisfied"
  | 2010 => "Return value in a Void construct"
  | 2011 => "Missing return"
  | 2012 => "No matching overload"
  | 2013 => "Expression is not indexable"
  | 2014 => "Member access on a non-class value"
  | 2015 => "Wrong number of template arguments"
  | 2016 => "Member differs across union candidates"
  | 2017 => "Index is not Int"
  | 2018 => "Case value does not match the subject"
  | 2019 => "Loop bound is not Int"
  | 2020 => "Empty list literal needs an element type"
  | 2021 => "Mismatched list element"
  | 2022 => "Missing return value"
  | 2023 => "Expression is not assignable"
  | 2024 => "Too many indices"
  | 3000 => "Modifier information"
  | 3001 => "Inheritance from a final class"
  | 3002 => "Inheritance from a templated class"
  | 3003 => "Abstract methods not implemented"
  | 3004 => "Recursion without 'rec'"
  | 3005 => "Override of a final method"
  | 3006 => "Instantiation of an abstract class"
  | 3007 => "Access to a non-public member"
  | 3008 => "Assignment to a constant"
  | 3009 => "Side effect in a pure construct"
  | 3010 => "Method without body in a concrete class"
  | 4000 => "Configuration information"
  | 4001 => "Malformed pass cutoff"
  | 4002 => "Pass cutoff out of range"
  | 4003 => "Unknown pass"
  | 4004 => "Unknown pipeline mode"
  | 4005 => "Empty pass list"
  | 4006 => "Pass prerequisite missing"
  | 4007 => "Unknown diagnostics setting"
  | _ => "Unknown error"

def text (code : Code) : String := s!"[{code.id}]: {code.title}"

/-! ### Messages -/

/-- The argument at a place; a missing one is shown as such. -/
def argument (args : List String) (index : Nat) : String := args[index]?.getD "<?>"

/-- The message of a code with its arguments; a code without one shows its title. -/
def message (code : Code) (args : List String) : String :=
  let arg := argument args
  match code.number with
  | 1001 => s!"'{arg 0}' is already declared in this scope"
  | 1002 => s!"unresolved reference to '{arg 0}'"
  | 1003 => s!"'{arg 0}' is used in its own initializer"
  | 1004 => s!"class '{arg 0}' is not declared"
  | 1005 => s!"'{arg 1}' has no field '{arg 0}'"
  | 1006 => s!"type '{arg 0}' is not declared"
  | 1007 => s!"'{arg 0}' shadows the {arg 1} declared in an enclosing scope"
  | 1008 => s!"'{arg 1}' has no method '{arg 0}'"
  | 1009 => s!"import of '{arg 0}' forms a cycle"
  | 1010 => "'this' used outside of a class"
  | 1011 => s!"import '{arg 0}' has no unit attached"
  | 1012 => s!"base '{arg 0}' of '{arg 1}' is not a class"
  | 1013 => s!"class '{arg 0}' inherits from itself"
  | 1014 => s!"function '{arg 0}' is not declared"
  | 2001 => s!"type {arg 1} is not assignable to {arg 0}"
  | 2002 => s!"return type {arg 1} does not match declared {arg 0}"
  | 2003 => s!"condition must be Bool, found {arg 0}"
  | 2004 => s!"operator '{arg 0}' cannot be applied to {arg 1} and {arg 2}"
  | 2005 => s!"operator '{arg 0}' cannot be applied to {arg 1}"
  | 2006 => s!"cannot cast {arg 1} to {arg 0}"
  | 2007 => s!"class '{arg 1}' has no field '{arg 0}'"
  | 2008 => s!"field '{arg 0}' is initialised more than once"
  | 2009 => s!"{arg 1} does not satisfy the {arg 2} constraint of '{arg 0}'"
  | 2010 => s!"'{arg 0}' returns Void and cannot return a value"
  | 2011 => s!"'{arg 0}' must return {arg 1} but has no return statement in its body"
  | 2012 => s!"no overload of '{arg 0}' accepts ({arg 1})"
  | 2013 => s!"{arg 0} is not indexable"
  | 2014 => s!"{arg 0} has no members"
  | 2015 => s!"'{arg 0}' expects {arg 1} template argument(s), found {arg 2}"
  | 2016 => s!"member '{arg 0}' differs across the candidates of {arg 1}"
  | 2017 => s!"index must be Int, found {arg 0}"
  | 2018 => s!"case value of type {arg 1} does not match subject {arg 0}"
  | 2019 => s!"loop bound must be Int, found {arg 0}"
  | 2020 => "empty list literal needs an element type"
  | 2021 => s!"list element of type {arg 1} does not match {arg 0}"
  | 2022 => s!"'{arg 0}' must return a value of type {arg 1}"
  | 2023 => "expression cannot be assigned to"
  | 2024 => s!"{arg 0} accepts at most {arg 1} indices"
  | 3001 => s!"'{arg 1}' cannot inherit from final class '{arg 0}'"
  | 3002 => s!"'{arg 1}' cannot inherit from templated class '{arg 0}'"
  | 3003 => s!"class '{arg 0}' does not implement abstract method(s) {arg 1}"
  | 3004 => s!"'{arg 0}' calls itself but is not marked rec"
  | 3005 => s!"'{arg 0}' overrides a final method of '{arg 1}'"
  | 3006 => s!"cannot instantiate abstract class '{arg 0}'"
  | 3007 => s!"'{arg 0}' is not public in '{arg 1}'"
  | 3008 => s!"cannot assign to constant '{arg 0}'"
  | 3009 => s!"pure '{arg 0}' assigns to '{arg 1}'"
  | 3010 => s!"method '{arg 0}' has no body but class '{arg 1}' is not abstr"
  | 4001 => s!"malformed cutoff directive '{arg 0}'"
  | 4002 => s!"cutoff {arg 0} is outside [1, {arg 1}]"
  | 4003 => s!"unknown pass '{arg 0}'"
  | 4004 => s!"unknown mode '{arg 0}'"
  | 4005 => "no passes configured"
  | 4006 => s!"pass '{arg 0}' needs '{arg 1}' to run before it"
  | 4007 => s!"unknown {arg 0} '{arg 1}'"
  | _ => code.title

end Code

/-! ### Suggestions -/

/-- The code of a hint attached to a diagnostic. -/
structure HintCode where
  number : Nat
  deriving DecidableEq, Repr, Inhabited

namespace HintCode

def none : HintCode := ⟨0⟩
def didYouMean : HintCode := ⟨1⟩
def addRec : HintCode := ⟨2⟩
def makePublic : HintCode := ⟨3⟩
def implement : HintCode := ⟨4⟩
def removeFinal : HintCode := ⟨5⟩
def addReturn : HintCode := ⟨6⟩
def useCast : HintCode := ⟨7⟩
def markIn : HintCode := ⟨8⟩

def message (code : HintCode) (args : List String) : String :=
  let arg := Code.argument args
  match code.number with
  | 1 => s!"did you mean '{arg 0}'?"
  | 2 => s!"mark '{arg 0}' as rec"
  | 3 => s!"mark '{arg 0}' as public"
  | 4 => s!"implement {arg 0} in '{arg 1}' or mark it abstr"
  | 5 => s!"remove final from '{arg 0}'"
  | 6 => s!"add a return statement directly in the body of '{arg 0}'"
  | 7 => s!"use an explicit cast to {arg 0}"
  | 8 => s!"mark parameter '{arg 0}' as in"
  | _ => ""

end HintCode

end TreeCheck
