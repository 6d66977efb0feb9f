import LoxLang.Store.Frames
import LoxLang.Text.Quoted

/-!
# The debugging text of frames

A frame is shown by its names in order of definition and by the frame around it, which is
shown in the same way.
-/

namespace LoxLang.Frames

def nameList (names : List String) : String :=
  "[" ++ ", ".intercalate (names.map Text.quoted) ++ "]"

/-- The text of the frames in a chain, the first around which all others stand. -/
def chainText (frames : Frames) : List FrameId → String
  | [] => "None"
  | frame :: outer =>
    s!"Environment({nameList (frames.namesOf frame).names}, enclosing={frames.chainText outer})"

def debugText (frames : Frames) (frame : FrameId) : String :=
  frames.chainText (frames.chain frame)

end LoxLang.Frames
