import LoxLang.Token.Basic
import LoxLang.Value.Operators

/-!
# Why a run stops early

A run-time error is part of the language: it has a cause and the word at which it
happened. A defect is a state that no run of a checked program reaches. And a run is
unfinished when one of its loops went round more often than it was given leave to.
-/

namespace LoxLang

inductive RuntimeCause where
  | undefinedVariable (name : String)
  | undefinedProperty (name : String)
  | propertyOfNonObject
  | fieldOfNonObject
  | operands (fault : OperandFault)
  | notCallable
  | argumentCount (expected given : Nat)
  | superclassNotClass
  | stackOverflow
  deriving DecidableEq, Repr

def RuntimeCause.message : RuntimeCause → String
  | undefinedVariable name => s!"Undefined variable '{name}'."
  | undefinedProperty name => s!"Undefined property '{name}'."
  | propertyOfNonObject => "Only instances have properties."
  | fieldOfNonObject => "Only instances have fields."
  | operands fault => fault.message
  | notCallable => "Can only call functions and classes."
  | argumentCount expected given => s!"Expected {expected} arguments but got {given}."
  | superclassNotClass => "Superclass must be a class."
  | stackOverflow => "Stack overflow."

structure RuntimeError where
  token : Occurrence
  cause : RuntimeCause

namespace RuntimeError

def message (error : RuntimeError) : String := error.cause.message

def line (error : RuntimeError) : Nat := error.token.line

def text (error : RuntimeError) : String := s!"{error.message}\n[line {error.line}]"

end RuntimeError

/-- Why a program that was not checked, or a call from outside, has no meaning. -/
inductive Defect where
  | nameMissing (name : String)
  | frameMissing
  | superUnbound
  | superNotClass
  /-- A built-in function has no answer to the arguments it was given. -/
  | argumentMissing
  | notCallable
  deriving DecidableEq, Repr

inductive Stop where
  | error (error : RuntimeError)
  | defect (defect : Defect)
  | unfinished

end LoxLang
