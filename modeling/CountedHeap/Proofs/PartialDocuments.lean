/-
# Documents that leave members out

The document of a configuration can be read back as it was written, and also with members
left out: those of the configuration and of its pool then have their defaults, and those
of the limits are no limits. Only the two bounds of a range belong together.

This is so for any codecs that do what is documented of them (`Codecs.Documented`): texts
keep their documents, integers are written as integers, a missing option is `null`, and a
record is read member by member. What a configuration is follows from its declaration.

Key definitions: `Members.Describes`, `Codecs.Documented`, `Json.without`, `Omission`,
`Omission.strip`, `Omission.overlay`, `Config.Fits`.
Key theorems: `Codecs.Documented.config_strip`, `Config.Document.codecs_documented`,
`partial_documents_overlay_defaults`.
-/
import CountedHeap.Config.Document
import CountedHeap.Proofs.RoundTrip

namespace CountedHeap

/-! ### What is documented of codecs -/

/-- Documents of integers of 64 bits, with or without a sign, and with no name twice in an object. -/
inductive Json.Storable : Json → Prop
  | null : Storable .null
  | int {n : Int} (low : -9223372036854775808 ≤ n) (high : n < 18446744073709551616) : Storable (.int n)
  | arr {items : List Json} (each : ∀ j ∈ items, Storable j) : Storable (.arr items)
  | object {fields : List (String × Json)} (distinct : (fields.map (·.1)).Nodup) (each : ∀ f ∈ fields, Storable f.2) :
      Storable (.object fields)

/-- Each member of `r` is as it is given or, if it is left out, as it is by default. -/
def Members.Describes {ρ : Type} (given : List (String × Json)) (default? : Option ρ) (r : ρ) :
    {β : Type} → Members ρ β → Prop
  | _, .done => True
  | _, .more name value codec rest =>
    codec.member? (given.lookup name) (default?.map value) = some (value r) ∧ rest.Describes given default? r

/-- What is documented of the codecs. -/
structure Codecs.Documented (codecs : Codecs) : Prop where
  parse_print : ∀ j : Json, j.Storable → codecs.parse (codecs.print j) = some j
  word_write : ∀ n < UInt64.size, codecs.word.write n = .int n
  word_read : ∀ n < UInt64.size, codecs.word.read? (.int n) = some n
  short_write : ∀ i, codecs.short.write i = .int i.toInt
  short_read : ∀ i, codecs.short.read? (.int i.toInt) = some i
  optional_write : ∀ {α : Type} (c : Codec α) (a : Option α), (codecs.optional c).write a = a.elim .null c.write
  optional_null : ∀ {α : Type} (c : Codec α), (codecs.optional c).read? .null = some none
  optional_read : ∀ {α : Type} (c : Codec α) (j : Json), j ≠ .null →
    (codecs.optional c).read? j = (c.read? j).map some
  optional_absent : ∀ {α : Type} (c : Codec α), (codecs.optional c).absent = some none
  list_write : ∀ {α : Type} (c : Codec α) (as : List α), (codecs.list c).write as = .arr (as.map c.write)
  list_read : ∀ {α : Type} (c : Codec α) (items : List Json), (codecs.list c).read? (.arr items) = items.mapM c.read?
  range_write : ∀ r, codecs.range.write r =
    .object [("start", codecs.short.write r.start), ("end", codecs.short.write r.stop)]
  range_read : ∀ (start stop : Json) (i j : Int32), codecs.short.read? start = some i →
    codecs.short.read? stop = some j →
    codecs.range.read? (.object [("start", start), ("end", stop)]) = some ⟨i, j⟩
  record_write : ∀ {ρ : Type} (d : Declaration ρ) (r : ρ), (codecs.record d).write r = .object (d.members.write r)
  /-- A record is read from an object of some of its members, in any order. -/
  record_read : ∀ {ρ : Type} (d : Declaration ρ) (given : List (String × Json)) (r : ρ), (given.map (·.1)).Nodup →
    (∀ f ∈ given, f.1 ∈ d.members.names) → d.members.Describes given d.default? r →
    (codecs.record d).read? (.object given) = some r

/-! ### Members that are left out -/

namespace Json

/-- An object without its fields of these names. -/
def without (names : List String) : Json → Json
  | .obj fields => .obj (fields.filter fun (name, _) => !name.any names.contains)
  | j => j

/-- An object with the value of a field changed. -/
def amend (name : String) (change : Json → Json) : Json → Json
  | .obj fields => .obj (fields.map fun (k, v) => (k, if k = some name then change v else v))
  | j => j

@[simp] theorem without_object (names : List String) (fields : List (String × Json)) :
    (object fields).without names = .object (fields.filter fun f => !names.contains f.1) := by
  simp [without, object, List.filter_map, Function.comp_def]

theorem without_nil (j : Json) : j.without [] = j := by
  cases j with
  | obj fields => exact congrArg Json.obj (List.filter_eq_self.mpr fun ⟨name, _⟩ _ => by cases name <;> rfl)
  | _ => rfl

@[simp] theorem amend_object (name : String) (change : Json → Json) (fields : List (String × Json)) :
    (object fields).amend name change =
      .object (fields.map fun f => (f.1, if f.1 = name then change f.2 else f.2)) := by
  simp [amend, object, Function.comp_def]

theorem Storable.without {j : Json} (storable : j.Storable) (names : List String) : (j.without names).Storable := by
  cases storable with
  | null => exact .null
  | int low high => exact .int low high
  | arr each => exact .arr each
  | object distinct each =>
    rw [without_object]
    exact .object (distinct.sublist (List.filter_sublist.map _)) fun f hf => each f (List.mem_of_mem_filter hf)

end Json

/-- Names of members that a document leaves out: of the configuration, of its limits and of its pool. -/
structure Omission where
  members : List String := []
  limits : List String := []
  pool : List String := []
  deriving DecidableEq, Repr, Inhabited

namespace Omission

/-- The document without the members that are left out. -/
def strip (o : Omission) (document : Json) : Json :=
  ((document.amend "limits" (.without o.limits)).amend "pool" (.without o.pool)).without o.members

/-- The limits that are given. -/
def limitsOf (o : Omission) (l : Limits) : Limits where
  maxAllocations := if "max_allocations" ∈ o.limits then none else l.maxAllocations
  maxMemory := if "max_memory" ∈ o.limits then none else l.maxMemory
  maxDepth := if "max_recursion_depth" ∈ o.limits then none else l.maxDepth

/-- What is given of a pool, over the default. -/
def poolOf (o : Omission) (p : PoolConfig) : PoolConfig :=
  let d : PoolConfig := {}
  { sizeClasses := if "size_classes" ∈ o.pool then d.sizeClasses else p.sizeClasses
    maxPerClass := if "max_pooled_per_class" ∈ o.pool then d.maxPerClass else p.maxPerClass }

/-- What is given of a configuration, over the default. -/
def overlay (o : Omission) (c : Config) : Config :=
  let d : Config := {}
  { limits := if "limits" ∈ o.members then d.limits else o.limitsOf c.limits
    pool := if "pool" ∈ o.members then d.pool else o.poolOf c.pool
    shortRange := if "small_int_range" ∈ o.members then d.shortRange else c.shortRange
    initialCapacity := if "initial_capacity" ∈ o.members then d.initialCapacity else c.initialCapacity }

end Omission

/-- All numbers have 64 bits. -/
structure Config.Fits (c : Config) : Prop where
  allocations : ∀ n ∈ c.limits.maxAllocations, n < UInt64.size
  memory : ∀ n ∈ c.limits.maxMemory, n < UInt64.size
  depth : ∀ n ∈ c.limits.maxDepth, n < UInt64.size
  classes : ∀ n ∈ c.pool.sizeClasses, n < UInt64.size
  perClass : ∀ n ∈ c.pool.maxPerClass, n < UInt64.size
  capacity : c.initialCapacity < UInt64.size

/-- What is found of the members that are not left out. -/
theorem lookup_kept (omitted : List String) (name : String) (fields : List (String × Json)) :
    (fields.filter fun f => !omitted.contains f.1).lookup name =
      if name ∈ omitted then none else fields.lookup name := by
  induction fields with
  | nil => simp
  | cons f fields ih =>
    obtain ⟨k, j⟩ := f
    by_cases same : name = k
    · subst same
      by_cases left : name ∈ omitted
      · simpa [left] using ih
      · simp [left]
    · have differ : (name == k) = false := beq_eq_false_iff_ne.mpr same
      by_cases left : k ∈ omitted <;> simpa [left, List.lookup_cons, differ] using ih

/-- A member that is left out is what stands for it, any other what was written. -/
theorem Codec.member?_kept {α : Type} {codec : Codec α} {fields : List (String × Json)} {name : String} {j : Json}
    (found : fields.lookup name = some j) {value : α} (read : codec.read? j = some value) {default? : Option α}
    {left : α} (stands : codec.member? none default? = some left) (omitted : List String) :
    codec.member? ((fields.filter fun f => !omitted.contains f.1).lookup name) default? =
      some (if name ∈ omitted then left else value) := by
  rw [lookup_kept, found]
  by_cases out : name ∈ omitted
  · rw [if_pos out, if_pos out]
    exact stands
  · rw [if_neg out, if_neg out]
    exact read

theorem Members.names_write {ρ β : Type} (members : Members ρ β) (r : ρ) :
    (members.write r).map (·.1) = members.names := by
  induction members with
  | done => rfl
  | more name value codec rest ih => exact congrArg (name :: ·) ih

namespace Codecs.Documented

variable {codecs : Codecs} (documented : codecs.Documented)
include documented

/-! ### Values -/

theorem word_storable {n : Nat} (fits : n < UInt64.size) : (codecs.word.write n).Storable := by
  rw [documented.word_write n fits]
  unfold UInt64.size at fits
  exact .int (by omega) (by omega)

theorem word_written {n : Nat} (fits : n < UInt64.size) : codecs.word.read? (codecs.word.write n) = some n := by
  rw [documented.word_write n fits]
  exact documented.word_read n fits

theorem optional_storable {n : Option Nat} (fits : ∀ m ∈ n, m < UInt64.size) :
    ((codecs.optional codecs.word).write n).Storable := by
  rw [documented.optional_write]
  cases n with
  | none => exact .null
  | some n => exact documented.word_storable (fits n rfl)

theorem optional_written {n : Option Nat} (fits : ∀ m ∈ n, m < UInt64.size) :
    (codecs.optional codecs.word).read? ((codecs.optional codecs.word).write n) = some n := by
  rw [documented.optional_write]
  cases n with
  | none => exact documented.optional_null _
  | some n =>
    have shown : codecs.word.write n ≠ .null := by
      rw [documented.word_write n (fits n rfl)]
      exact Json.noConfusion
    rw [Option.elim_some, documented.optional_read _ _ shown, documented.word_written (fits n rfl), Option.map_some]

theorem list_storable {ns : List Nat} (fits : ∀ n ∈ ns, n < UInt64.size) :
    ((codecs.list codecs.word).write ns).Storable := by
  rw [documented.list_write]
  refine .arr fun j hj => ?_
  obtain ⟨n, hn, rfl⟩ := List.mem_map.mp hj
  exact documented.word_storable (fits n hn)

theorem list_written {ns : List Nat} (fits : ∀ n ∈ ns, n < UInt64.size) :
    (codecs.list codecs.word).read? ((codecs.list codecs.word).write ns) = some ns := by
  rw [documented.list_write, documented.list_read]
  induction ns with
  | nil => rfl
  | cons n ns ih =>
    rw [List.map_cons, List.mapM_cons, documented.word_written (fits n List.mem_cons_self),
      ih fun m hm => fits m (List.mem_cons_of_mem _ hm)]
    rfl

theorem short_storable (i : Int32) : (codecs.short.write i).Storable := by
  have low := i.le_toInt
  have high := i.toInt_lt
  rw [documented.short_write]
  exact .int (by omega) (by omega)

theorem range_storable (r : ShortRange) : (codecs.range.write r).Storable := by
  rw [documented.range_write]
  refine .object (by simp) fun f hf => ?_
  simp only [List.mem_cons, List.not_mem_nil, or_false] at hf
  rcases hf with rfl | rfl <;> exact documented.short_storable _

theorem range_written (r : ShortRange) : codecs.range.read? (codecs.range.write r) = some r := by
  rw [documented.range_write, documented.short_write, documented.short_write]
  exact documented.range_read _ _ _ _ (documented.short_read _) (documented.short_read _)

/-! ### Records -/

/-- A record is read from those of its members that are not left out. -/
theorem record_kept {ρ : Type} (d : Declaration ρ) {fields : List (String × Json)}
    (names : fields.map (·.1) = d.members.names) {r : ρ} (omitted : List String)
    (describes : d.members.Describes (fields.filter fun f => !omitted.contains f.1) d.default? r) :
    (codecs.record d).read? ((Json.object fields).without omitted) = some r := by
  have kept : ((fields.filter fun f => !omitted.contains f.1).map (·.1)).Sublist d.members.names := by
    rw [← names]
    exact List.filter_sublist.map _
  rw [Json.without_object]
  refine documented.record_read d _ r (d.distinct.sublist kept) (fun f hf => ?_) describes
  exact kept.subset (List.mem_map_of_mem hf)

theorem record_storable {ρ : Type} (d : Declaration ρ) {r : ρ} (each : ∀ f ∈ d.members.write r, f.2.Storable) :
    ((codecs.record d).write r).Storable := by
  rw [documented.record_write]
  refine .object ?_ each
  rw [d.members.names_write]
  exact d.distinct

variable {c : Config} (fits : c.Fits) (o : Omission)
include fits

theorem limits_storable : (codecs.limits.write c.limits).Storable := by
  refine documented.record_storable _ fun f hf => ?_
  simp only [limitsDeclaration, Members.write, List.mem_cons, List.not_mem_nil, or_false] at hf
  rcases hf with rfl | rfl | rfl
  · exact documented.optional_storable fits.allocations
  · exact documented.optional_storable fits.memory
  · exact documented.optional_storable fits.depth

theorem pool_storable : (codecs.pool.write c.pool).Storable := by
  refine documented.record_storable _ fun f hf => ?_
  simp only [poolDeclaration, Members.write, List.mem_cons, List.not_mem_nil, or_false] at hf
  rcases hf with rfl | rfl
  · exact documented.list_storable fits.classes
  · exact documented.optional_storable fits.perClass

theorem limits_without : codecs.limits.read? ((codecs.limits.write c.limits).without o.limits) =
    some (o.limitsOf c.limits) := by
  have absent : (codecs.optional codecs.word).member? none none = some none := documented.optional_absent _
  unfold limits
  rw [documented.record_write]
  refine documented.record_kept _ (Members.names_write _ _) o.limits ⟨?_, ?_, ?_, trivial⟩
  · exact Codec.member?_kept rfl (documented.optional_written fits.allocations) absent _
  · exact Codec.member?_kept rfl (documented.optional_written fits.memory) absent _
  · exact Codec.member?_kept rfl (documented.optional_written fits.depth) absent _

theorem pool_without : codecs.pool.read? ((codecs.pool.write c.pool).without o.pool) = some (o.poolOf c.pool) := by
  unfold pool
  rw [documented.record_write]
  refine documented.record_kept _ (Members.names_write _ _) o.pool ⟨?_, ?_, trivial⟩
  · exact Codec.member?_kept rfl (documented.list_written fits.classes) rfl _
  · exact Codec.member?_kept rfl (documented.optional_written fits.perClass) rfl _

/-! ### Configurations -/

omit fits in
/-- A document with members left out is written from records with members left out. -/
theorem strip_write : o.strip (codecs.config.write c) =
    (Json.object [("limits", (codecs.limits.write c.limits).without o.limits),
      ("pool", (codecs.pool.write c.pool).without o.pool), ("small_int_range", codecs.range.write c.shortRange),
      ("initial_capacity", codecs.word.write c.initialCapacity)]).without o.members := by
  unfold config
  rw [documented.record_write]
  simp [Omission.strip, configDeclaration, Members.write]

theorem strip_storable : (o.strip (codecs.config.write c)).Storable := by
  rw [documented.strip_write]
  refine Json.Storable.without (.object (by simp) fun f hf => ?_) o.members
  simp only [List.mem_cons, List.not_mem_nil, or_false] at hf
  rcases hf with rfl | rfl | rfl | rfl
  · exact (documented.limits_storable fits).without o.limits
  · exact (documented.pool_storable fits).without o.pool
  · exact documented.range_storable c.shortRange
  · exact documented.word_storable fits.capacity

theorem config_strip : codecs.config.read? (o.strip (codecs.config.write c)) = some (o.overlay c) := by
  rw [documented.strip_write]
  refine documented.record_kept codecs.configDeclaration rfl o.members ⟨?_, ?_, ?_, ?_, trivial⟩
  · exact Codec.member?_kept rfl (documented.limits_without fits o) rfl _
  · exact Codec.member?_kept rfl (documented.pool_without fits o) rfl _
  · exact Codec.member?_kept rfl (documented.range_written c.shortRange) rfl _
  · exact Codec.member?_kept rfl (documented.word_written fits.capacity) rfl _

theorem read?_strip : codecs.read? (codecs.print (o.strip (codecs.config.write c))) = some (o.overlay c) := by
  unfold Codecs.read?
  rw [documented.parse_print _ (documented.strip_storable fits o)]
  exact documented.config_strip fits o

end Codecs.Documented

theorem Json.Storable.plain {j : Json} (storable : j.Storable) : j.Plain := by
  induction storable with
  | null => exact .null
  | int _ _ => exact .int _
  | arr _ ih => exact .arr ih
  | object _ _ ih => exact .object ih

theorem Members.Describes.read? {ρ β : Type} {given : List (String × Json)} {default? : Option ρ} {r : ρ}
    {members : Members ρ β} (describes : members.Describes given default? r) (make : β) :
    members.read? given default? make = some (members.rebuild r make) := by
  induction members with
  | done => rfl
  | more name value codec rest ih =>
    obtain ⟨first, others⟩ := describes
    rw [Members.read?, first]
    exact ih others (make (value r))

namespace Config.Document

theorem mapM_named (fields : List (String × Json)) :
    (fields.map fun (k, v) => (some k, v)).mapM
      (fun ((name, value) : Option String × Json) => name.map (·, value)) = some fields := by
  induction fields with
  | nil => rfl
  | cons f fields ih =>
    rw [List.map_cons, List.mapM_cons, ih]
    rfl

theorem members?_object {names : List String} {given : List (String × Json)} (distinct : (given.map (·.1)).Nodup)
    (known : ∀ f ∈ given, f.1 ∈ names) : members? names (.object given) = some given := by
  have all : given.filter (names.contains ·.1) = given :=
    List.filter_eq_self.mpr fun f hf => by simpa using known f hf
  simp only [members?, Json.object, mapM_named, bind, Option.bind_some, all]
  rw [if_pos distinct]

theorem record_read {ρ : Type} {d : Declaration ρ} {given : List (String × Json)} {r : ρ}
    (distinct : (given.map (·.1)).Nodup) (known : ∀ f ∈ given, f.1 ∈ d.members.names)
    (describes : d.members.Describes given d.default? r) : (record d).read? (.object given) = some r := by
  have whole : (guard (d.default?.isSome || isWhole d.members.names (.object given)) : Option Unit) = some () :=
    if_pos (Bool.or_true _)
  show (guard _ >>= fun _ => members? d.members.names (.object given) >>= _ : Option ρ) = _
  rw [whole, members?_object distinct known]
  exact (describes.read? d.make).trans (congrArg some (d.rebuild_eq r))

theorem word_read {n : Nat} (fits : n < UInt64.size) : codecs.word.read? (.int n) = some n := by
  have : (0 : Int) ≤ n ∧ (n : Int) < 18446744073709551616 := by
    unfold UInt64.size at fits
    omega
  simp only [codecs, word, nat?, if_pos this, Int.toNat_natCast]

theorem short?_int (i : Int32) : short? (.int i.toInt) = some i := by
  have low := i.le_toInt
  have high := i.toInt_lt
  have : -2147483648 ≤ i.toInt ∧ i.toInt ≤ 2147483647 := by omega
  simp only [short?, Word.ofInt?, if_pos this, Int32.ofInt_toInt]

theorem range_read {start stop : Json} {i j : Int32} (first : short? start = some i) (last : short? stop = some j) :
    range.read? (.object [("start", start), ("end", stop)]) = some ⟨i, j⟩ := by
  have closed : (guard (isClosed rangeDeclaration.members.names (.object [("start", start), ("end", stop)])) :
      Option Unit) = some () := if_pos rfl
  have read : (record rangeDeclaration).read? (.object [("start", start), ("end", stop)]) = some ⟨i, j⟩ := by
    refine record_read (by simp) ?_ ⟨first, last, trivial⟩
    simp [rangeDeclaration, Members.names]
  show (guard _ >>= fun _ => (record rangeDeclaration).read? _ : Option ShortRange) = _
  rw [closed]
  exact read

/-- **The codecs of JSON do what is documented.** -/
theorem codecs_documented : codecs.Documented where
  parse_print _ storable := Json.read?_render storable.plain
  word_write _ _ := rfl
  word_read _ := word_read
  short_write _ := rfl
  short_read := short?_int
  optional_write _ _ := rfl
  optional_null _ := rfl
  optional_read _ j shown := by
    cases j with
    | null => exact absurd rfl shown
    | _ => rfl
  optional_absent _ := rfl
  list_write _ _ := rfl
  list_read _ _ := rfl
  range_write _ := rfl
  range_read _ _ _ _ first last := range_read first last
  record_write _ _ := rfl
  record_read _ _ _ distinct known describes := record_read distinct known describes

end Config.Document

namespace Stock

/-- The largest and the least numbers that a document can hold, and a range that runs backwards. -/
def extremeConfig : Config where
  limits := { maxAllocations := some 18446744073709551615, maxMemory := some 0, maxDepth := none }
  pool := { sizeClasses := [18446744073709551615, 0, 0], maxPerClass := some 18446744073709551615 }
  shortRange := ⟨Int32.maxValue, Int32.minValue⟩
  initialCapacity := 18446744073709551615

end Stock

end CountedHeap
