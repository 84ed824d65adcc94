import ShaderReflection.Word

/-!
The limits that bound the work done for one module and for one question about it. They are far
above what real shaders need.
-/

namespace ShaderReflection

/-- The largest id bound that a header may declare by default. -/
def maxIdBound : Word := 0x400000

/-- The greatest number of words that a module may have by default. -/
def maxModuleWords : Nat := 16 * 1024 * 1024

/-- How many levels a type may nest below the one that is asked about. -/
def maxLayoutDepth : Nat := 64

/-- How many types one layout or rendering visits. A type that is used twice is visited twice, so
a small module can describe an enormous type. -/
def maxTypeNodes : Nat := 8192

/-- How many bytes of member names one layout or rendering copies. -/
def maxNameBytes : Nat := 1024 * 1024

/-- What is checked while a module is read. -/
structure ParseOptions where
  maxIdBound : Word := ShaderReflection.maxIdBound
  maxWords : Nat := maxModuleWords
  /-- Whether ids at or above the header's bound are refused. -/
  checkIdBound : Bool := true
  deriving DecidableEq, Repr

/-- What one layout or rendering has used up so far. -/
structure Budget where
  visited : Nat := 0
  nameBytes : Nat := 0
  deriving DecidableEq, Repr

namespace Budget

/-- Counts the visit of a type. -/
def visit (budget : Budget) : Budget := { budget with visited := budget.visited + 1 }

/-- Counts the copy of a member name. -/
def copyName (budget : Budget) (name : String) : Budget :=
  { budget with nameBytes := budget.nameBytes + name.utf8ByteSize }

/-- Whether more types have been visited than allowed. -/
def overNodes (budget : Budget) : Bool := maxTypeNodes < budget.visited

/-- Whether more bytes of names have been copied than allowed. -/
def overNames (budget : Budget) : Bool := maxNameBytes < budget.nameBytes

/-- Whether either limit has been reached, so that nothing more may be begun. -/
def isExhausted (budget : Budget) : Bool :=
  maxTypeNodes ≤ budget.visited || maxNameBytes ≤ budget.nameBytes

end Budget

/-- How a budget is charged. Where counters have a fixed size, one may not hold what it comes to. -/
class Charging (μ : Type → Type) where
  /-- Counts the visit of a type. -/
  visit : Budget → μ Budget
  /-- Counts the copy of a member name. -/
  copyName : Budget → String → μ Budget

/-- Charges to counters that hold every number. -/
abbrev Charging.unbounded {μ : Type → Type} [Pure μ] : Charging μ where
  visit budget := pure budget.visit
  copyName budget name := pure (budget.copyName name)

instance : Charging Id := .unbounded

instance {ε : Type} : Charging (Except ε) := .unbounded

end ShaderReflection
