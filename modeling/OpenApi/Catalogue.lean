import OpenApi.Codec
import OpenApi.Fault
/-! # The catalogue of models

Every reference claims the name of its model before the model is compiled, and a name belongs to
one reference for good. A model is defined once its codec is known.
-/
namespace OpenApi

structure Alias where
  name : String
  ref : String
  target : Option Codec

def Alias.codec (a : Alias) : Codec := .model a.name a.ref a.target

structure Catalogue where
  /-- The last alias of every reference. -/
  aliases : Entries String Alias
  /-- The reference that every claimed name belongs to. -/
  owners : Entries String String
  /-- The codecs of the defined names, in the order in which they were first defined. -/
  defined : Entries String Codec

namespace Catalogue

def empty : Catalogue := ⟨[], [], []⟩

instance : EmptyCollection Catalogue := ⟨empty⟩

def lookup (c : Catalogue) (ref : String) : Option Alias := c.aliases.get? ref

def isDefined (c : Catalogue) (name : String) : Bool := c.defined.has name

def models (c : Catalogue) : Entries String Codec := c.defined

/-- A claim fails if the name belongs to another reference. -/
def claim (c : Catalogue) (name ref : String) : Except Fault Catalogue :=
  let claimed : Catalogue :=
    { c with aliases := c.aliases.put ref ⟨name, ref, none⟩, owners := c.owners.put name ref }
  match c.owners.get? name with
  | none => .ok claimed
  | some owner => if owner = ref then .ok claimed else .error (.modelClash name owner ref)

def define (c : Catalogue) (a : Alias) (codec : Codec) : Catalogue :=
  { c with
    aliases := c.aliases.put a.ref { a with target := some codec }
    defined := c.defined.put a.name codec }

end Catalogue

end OpenApi
