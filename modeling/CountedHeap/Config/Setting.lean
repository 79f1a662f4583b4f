/-
# Building a configuration step by step

Settings are applied in order to the defaults; a later one wins.
-/
import CountedHeap.Config.Document

namespace CountedHeap
namespace Config

inductive Setting where
  /-- No limits, not even of depth. -/
  | unlimited
  | maxAllocations (n : Nat)
  | maxMemory (n : Nat)
  | maxDepth (n : Option Nat)
  | poolDisabled
  | sizeClasses (sizes : List Nat)
  | maxPerClass (n : Nat)
  | shortRange (range : ShortRange)
  | initialCapacity (n : Nat)
  deriving Repr, Inhabited

def set (c : Config) : Setting → Config
  | .unlimited => { c with limits := .unlimited }
  | .maxAllocations n => { c with limits := { c.limits with maxAllocations := some n } }
  | .maxMemory n => { c with limits := { c.limits with maxMemory := some n } }
  | .maxDepth n => { c with limits := { c.limits with maxDepth := n } }
  | .poolDisabled => { c with pool := .disabled }
  | .sizeClasses sizes => { c with pool := { c.pool with sizeClasses := sizes } }
  | .maxPerClass n => { c with pool := { c.pool with maxPerClass := some n } }
  | .shortRange range => { c with shortRange := range }
  | .initialCapacity n => { c with initialCapacity := n }

def ofSettings (settings : List Setting) : Config := settings.foldl set {}

/-- Whether reading the written form gives the configuration back. -/
def roundTrips (c : Config) : Bool := read? c.text = some c

def isDefault (c : Config) : Bool := c = {}

end Config
end CountedHeap
