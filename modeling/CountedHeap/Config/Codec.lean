/-
# How configurations are written and read

A configuration is a record of records. Which members they have, what these are called
and what stands for one that is left out is declared here. How numbers, options, lists
and declared records become documents, and documents texts, is left to `Codecs`.
-/
import CountedHeap.Config
import CountedHeap.Json

namespace CountedHeap

/-- How the values of a type are written as documents, and read from them. -/
structure Codec (α : Type) where
  write : α → Json
  read? : Json → Option α
  /-- What stands for a member that is left out of a record without defaults. -/
  absent : Option α := none

/-- The value of a member: the one that is given, or else its default, or else what stands for it. -/
def Codec.member? {α : Type} (codec : Codec α) (given : Option Json) (default? : Option α) : Option α :=
  match given, default? with
  | some j, _ => codec.read? j
  | none, some a => some a
  | none, none => codec.absent

/-- The members of a record `ρ` in order. A `β` takes their values and gives a record. -/
inductive Members (ρ : Type) : Type → Type 1
  | done : Members ρ ρ
  | more {α β : Type} (name : String) (value : ρ → α) (codec : Codec α) (rest : Members ρ β) : Members ρ (α → β)

namespace Members

variable {ρ : Type}

def names : {β : Type} → Members ρ β → List String
  | _, .done => []
  | _, .more name _ _ rest => name :: rest.names

/-- The record that is made from the values of `r`. -/
def rebuild (r : ρ) : {β : Type} → Members ρ β → β → ρ
  | _, .done, record => record
  | _, .more _ value _ rest, make => rest.rebuild r (make (value r))

/-- The names and the documents of the members of `r`. -/
def write (r : ρ) : {β : Type} → Members ρ β → List (String × Json)
  | _, .done => []
  | _, .more name value codec rest => (name, codec.write (value r)) :: rest.write r

end Members

/-- A record as it is declared. Its members have different names, and are all that it is made of. -/
structure Declaration (ρ : Type) where
  {β : Type}
  make : β
  members : Members ρ β
  /-- The record that members which are left out are taken from. -/
  default? : Option ρ := none
  distinct : members.names.Nodup
  rebuild_eq : ∀ r, members.rebuild r make = r

/-- All that is needed to write and read configurations. -/
structure Codecs where
  print : Json → String
  parse : String → Option Json
  /-- Counts of 64 bits. -/
  word : Codec Nat
  short : Codec Int32
  optional {α : Type} : Codec α → Codec (Option α)
  list {α : Type} : Codec α → Codec (List α)
  range : Codec ShortRange
  record {ρ : Type} : Declaration ρ → Codec ρ

namespace Codecs

variable (codecs : Codecs)

/-- Limits have no defaults: one that is left out is no limit. -/
def limitsDeclaration : Declaration Limits where
  make := Limits.mk
  members :=
    .more "max_allocations" (·.maxAllocations) (codecs.optional codecs.word) <|
    .more "max_memory" (·.maxMemory) (codecs.optional codecs.word) <|
    .more "max_recursion_depth" (·.maxDepth) (codecs.optional codecs.word) .done
  distinct := by simp [Members.names]
  rebuild_eq _ := rfl

def limits : Codec Limits := codecs.record codecs.limitsDeclaration

def poolDeclaration : Declaration PoolConfig where
  make := PoolConfig.mk
  members :=
    .more "size_classes" (·.sizeClasses) (codecs.list codecs.word) <|
    .more "max_pooled_per_class" (·.maxPerClass) (codecs.optional codecs.word) .done
  default? := some {}
  distinct := by simp [Members.names]
  rebuild_eq _ := rfl

def pool : Codec PoolConfig := codecs.record codecs.poolDeclaration

def configDeclaration : Declaration Config where
  make := Config.mk
  members :=
    .more "limits" (·.limits) codecs.limits <|
    .more "pool" (·.pool) codecs.pool <|
    .more "small_int_range" (·.shortRange) codecs.range <|
    .more "initial_capacity" (·.initialCapacity) codecs.word .done
  default? := some {}
  distinct := by simp [Members.names]
  rebuild_eq _ := rfl

def config : Codec Config := codecs.record codecs.configDeclaration

/-- The text of a configuration, with all its members. -/
def text (c : Config) : String := codecs.print (codecs.config.write c)

/-- The configuration that a text describes. -/
def read? (text : String) : Option Config := do
  codecs.config.read? (← codecs.parse text)

end Codecs

end CountedHeap
