import FreeListHeap.Block
import FreeListHeap.Placement

namespace FreeListHeap

-- What a heap reports on its own account.
inductive LogLine where
  | arenaReady (arena : Span)
  | noFit (request : Request)
  deriving DecidableEq, Repr

namespace LogLine

def level : LogLine → String
  | arenaReady _ => "DEBUG"
  | noFit _ => "TRACE"

def message : LogLine → String
  | arenaReady arena =>
    "heap arena " ++ arena.text ++ " (" ++ Word.decimal (arena.stop - arena.start) ++ " bytes)"
  | noFit request =>
    "no free block fits " ++ Word.decimal request.size ++ " bytes aligned to " ++
      Word.decimal request.align

def text (line : LogLine) : String :=
  line.level ++ " " ++ line.message

end LogLine

end FreeListHeap
