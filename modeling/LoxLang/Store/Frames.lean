import LoxLang.Value.Basic

/-!
# Frames

A frame holds the names of one activation of a scope and is enclosed by another frame, up
to a frame that is enclosed by none. Frames are never taken away: closures may come back
to any of them. A name is found either in the nearest frame that has it, or in the frame a
known number of steps outward.
-/

namespace LoxLang

structure Frame where
  names : Bindings Value
  enclosing : Option FrameId

structure Frames where
  all : Array Frame

namespace Frames

def empty : Frames := ⟨#[]⟩

def size (frames : Frames) : Nat := frames.all.size

/-- Adds a frame without names. Its number is the size before. -/
def push (frames : Frames) (enclosing : Option FrameId) : Frames :=
  ⟨frames.all.push ⟨Bindings.empty, enclosing⟩⟩

def define (frames : Frames) (frame : FrameId) (name : String) (value : Value) : Frames :=
  ⟨frames.all.modify frame fun found =>
    { found with names := found.names.bind name value }⟩

def namesOf (frames : Frames) (frame : FrameId) : Bindings Value :=
  match frames.all[frame]? with
  | some found => found.names
  | none => Bindings.empty

def here? (frames : Frames) (frame : FrameId) (name : String) : Option Value :=
  (frames.namesOf frame).get? name

def enclosing? (frames : Frames) (frame : FrameId) : Option FrameId :=
  frames.all[frame]?.bind (·.enclosing)

/-- The place a number of steps outward. One step from an outermost frame leads to no
frame, and from there no further step is possible. -/
def outward? (frames : Frames) : Nat → Option FrameId → Option (Option FrameId)
  | 0, place => some place
  | steps + 1, some frame => frames.outward? steps (frames.enclosing? frame)
  | _ + 1, none => none

def ancestor? (frames : Frames) (frame : FrameId) (steps : Nat) : Option FrameId :=
  (frames.outward? steps (some frame)).join

def chainWithin (frames : Frames) : Nat → FrameId → List FrameId
  | 0, _ => []
  | limit + 1, frame =>
    frame :: match frames.enclosing? frame with
      | some outer => frames.chainWithin limit outer
      | none => []

def chain (frames : Frames) (frame : FrameId) : List FrameId :=
  frames.chainWithin frames.size frame

def home? (frames : Frames) (frame : FrameId) (name : String) : Option FrameId :=
  (frames.chain frame).find? fun candidate => (frames.namesOf candidate).contains name

def get? (frames : Frames) (frame : FrameId) (name : String) : Option Value :=
  (frames.home? frame name).bind fun home => frames.here? home name

def assign? (frames : Frames) (frame : FrameId) (name : String) (value : Value) :
    Option Frames :=
  (frames.home? frame name).map fun home => frames.define home name value

end Frames

end LoxLang
