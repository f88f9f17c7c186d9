import MenteDb.Facade.EntityNames
import MenteDb.Foundation.Utf8

/-!
# Excerpts of contents

What is shown of long contents to a language model or an embedder is cut at a number of
bytes.  A cut inside a character is a panic, here the absence of a result.
-/

namespace MenteDb
namespace Facade

open Foundation
open Utf8
open Sqlite
open Cognitive

variable {F : Type}

def byteLength (s : String) : Nat := size s.toList

/-- The beginning of a text: so many bytes, or the whole of it. -/
def upTo (content : String) (limit : Nat) : Option String :=
  (takeBytes content.toList (min (byteLength content) limit)).map String.ofList

/-!
## Contexts of entity names
-/

/-- One more mention of a name.  The first one is cut at 300 bytes; another one is added to
less than that, and cut so that there are at most 500. -/
def mentionContext (existing : Option String) (content : String) : Option String :=
  match existing with
  | none => upTo content 300
  | some existing =>
      if byteLength existing < 300 then
        let joined := existing ++ " | "
        (upTo content (500 - byteLength joined)).map (fun part => joined ++ part)
      else some existing

/-- Contexts are kept by the name in the first entity tag. -/
def addContext (text : TextOps F) (contexts : Assoc String String) (mem : MemoryNode F) :
    Option (Assoc String String) :=
  match firstEntityName text mem with
  | none => some contexts
  | some name => (mentionContext (contexts.find? name) mem.content).map (contexts.insert name)

def entityContexts (text : TextOps F) (memories : List (MemoryNode F)) :
    Option (Assoc String String) :=
  memories.foldlM (addContext text) Assoc.empty

/-- Names to resolve with their contexts, in the order of a hash table. -/
def entityNamesWithContext (o : HashOrder) (text : TextOps F) (t : Tables F) :
    Option (List (String × Option String)) :=
  (entityContexts text t.allMemories).map (fun contexts =>
    (o.order contexts.entries).map (fun c => (c.1, some c.2)))

end Facade
end MenteDb
