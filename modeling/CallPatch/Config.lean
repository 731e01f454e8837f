import CallPatch.Store.Names
import CallPatch.Text.Blank
/-!
# Configuration of an agent

Which stores to extend when they are defined, where to put a copy of what the
agent transforms, and which interfaces count as stores. The first two can be
given as text, from the environment or elsewhere.
-/

namespace CallPatch

/-- What an agent is told when it is started. -/
structure AgentConfig where
  /-- The owners to extend when they are defined. -/
  baseImplementations : List String
  /-- The directory that gets a copy of every transformed artifact. -/
  dumpDir : Option String
  storeInterfaces : List String
  deriving DecidableEq, Repr

namespace AgentConfig

/-- The environment variable that lists the base implementations. -/
def baseImplementationsVariable : String := "VOIDPUT_BASE_IMPLS"

/-- The environment variable that names the dump directory. -/
def dumpDirVariable : String := "VOIDPUT_DUMP_DIR"

/-- Nothing to extend, no copies, the interfaces of the store protocol. -/
def default : AgentConfig :=
  { baseImplementations := [], dumpDir := none, storeInterfaces := Store.defaultInterfaces }

/-- The names in a list separated by commas, without blanks around them and without blank ones. -/
def parseNames (list : String) : List String :=
  (Text.commaFields list).filterMap Text.trimmed?

/-- The configuration two texts ask for. A text that is absent or blank asks for nothing. -/
def ofTexts (baseImplementations dumpDir : Option String) : AgentConfig :=
  { default with
    baseImplementations := (baseImplementations.map parseNames).getD []
    dumpDir := dumpDir.bind Text.trimmed? }

/-- One more base implementation, behind those there. -/
def withBaseImplementation (c : AgentConfig) (owner : String) : AgentConfig :=
  { c with baseImplementations := c.baseImplementations ++ [owner] }

/-- Another dump directory, as it is written. -/
def withDumpDir (c : AgentConfig) (dir : String) : AgentConfig :=
  { c with dumpDir := some dir }

/-- Whether the owner is to be extended when it is defined. -/
def isBaseImplementation (c : AgentConfig) (owner : String) : Bool :=
  c.baseImplementations.contains owner

/-- Whether calls through the type count as calls on a store. -/
def isStoreInterface (c : AgentConfig) (type : String) : Bool :=
  c.storeInterfaces.contains type

end AgentConfig

end CallPatch
