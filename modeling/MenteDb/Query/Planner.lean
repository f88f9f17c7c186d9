import MenteDb.Query.Plan
import Mathlib.Data.String.Basic
import Mathlib.Data.List.Basic
import Mathlib.Data.List.Induction

/-!
# Planning a recall

The planner turns the filters of a recall into one of two scans.  Tag filters
become a list of tags, bounds on instants become one interval, and what is left
is handed on.  The second part gives filters their meaning and says exactly when
the scan means what the filters did.
-/

namespace MenteDb
namespace Query

variable {F : Type}

/-!
## The planner
-/

structure OrderBy where
  field : Field
  descending : Bool
deriving DecidableEq, Repr

structure RecallStatement (F : Type) where
  filters : List (Filter F)
  near : Option (List F)
  limit : Option Nat
  orderBy : Option OrderBy

def defaultLimit : Nat := 20

def maxTimestamp : Timestamp := UInt64.ofNat (2 ^ 64 - 1)

def Operator.isLower : Operator -> Bool
  | Operator.gt | Operator.gte => true
  | _ => false

def Operator.isUpper : Operator -> Bool
  | Operator.lt | Operator.lte => true
  | _ => false

/-- A bound on an instant. -/
def Filter.isTimeRange (f : Filter F) : Bool :=
  (decide (f.field = Field.created) || decide (f.field = Field.accessed))
    && (f.op.isLower || f.op.isUpper)

/-- A further integer bound replaces the one before it; other values are skipped. -/
def narrow (bounds : Timestamp × Timestamp) (f : Filter F) : Timestamp × Timestamp :=
  match f.value with
  | Value.integer ts =>
      if f.op.isLower then (ts.toUInt64, bounds.2)
      else if f.op.isUpper then (bounds.1, ts.toUInt64)
      else bounds
  | _ => bounds

def timeBounds (timeFilters : List (Filter F)) : Timestamp × Timestamp :=
  timeFilters.foldl narrow (0, maxTimestamp)

def textOf : Value F -> Option String
  | Value.text t => some t
  | _ => none

def planRecall (statement : RecallStatement F) : Except MenteError (QueryPlan F) :=
  let limit := statement.limit.getD defaultLimit
  match statement.near with
  | some query => Except.ok (QueryPlan.vectorSearch query limit statement.filters)
  | none =>
      match statement.filters.find? (fun f => decide (f.op = Operator.similarTo)) with
      | some similar =>
          match similar.value with
          | Value.text _ =>
              Except.ok (QueryPlan.vectorSearch [] limit
                (statement.filters.filter (fun f => decide (f.op ≠ Operator.similarTo))))
          | _ =>
              Except.error (MenteError.query
                "~> operator requires a text value on the right-hand side")
      | none =>
          let tagFilters := statement.filters.filter (fun f => decide (f.field = Field.tag))
          if tagFilters ≠ [] ∧
              statement.filters.all (fun f => decide (f.field = Field.tag)) then
            Except.ok (QueryPlan.tagScan (tagFilters.filterMap (fun f => textOf f.value)) []
              (some limit))
          else
            let timeFilters := statement.filters.filter Filter.isTimeRange
            if timeFilters ≠ [] then
              Except.ok (QueryPlan.temporalScan (timeBounds timeFilters).1
                (timeBounds timeFilters).2
                (statement.filters.filter (fun f => !f.isTimeRange)))
            else Except.ok (QueryPlan.tagScan [] statement.filters (some limit))

/-!
## What filters mean

A comparison with a value of another kind fails, except that such a value is
different.  Tags are a set, which has no order.
-/

section Meaning

variable [Scalar F]

omit [Scalar F] in
def compareOp {α : Type} [LinearOrder α] (op : Operator) (a b : α) : Bool :=
  match op with
  | Operator.eq => decide (a = b)
  | Operator.neq => decide (a ≠ b)
  | Operator.gt => decide (b < a)
  | Operator.lt => decide (a < b)
  | Operator.gte => decide (b <= a)
  | Operator.lte => decide (a <= b)
  | Operator.similarTo => false

omit [Scalar F] in
/-- Membership, for values without an order. -/
def memberOp (op : Operator) (isMember : Bool) : Bool :=
  match op with
  | Operator.eq => isMember
  | Operator.neq => !isMember
  | _ => false

omit [Scalar F] in
def otherKind (op : Operator) : Bool := decide (op = Operator.neq)

def scoreHolds (op : Operator) (value : Value F) (score : F) : Bool :=
  match value with
  | Value.number x => compareOp op score x
  | Value.integer n => compareOp op score (n.toInt : F)
  | _ => otherKind op

def instantHolds (op : Operator) (value : Value F) (t : Timestamp) : Bool :=
  match value with
  | Value.integer n => compareOp op (t.toNat : Int) n.toInt
  | Value.number x => compareOp op (t.toNat : F) x
  | _ => otherKind op

omit [Scalar F] in
def uuidHolds (op : Operator) (value : Value F) (uuid : BitVec 128) : Bool :=
  match value with
  | Value.uuid u => compareOp op uuid.toNat u.toNat
  | _ => otherKind op

def satisfies (m : MemoryNode F) (f : Filter F) : Bool :=
  match f.field with
  | Field.content =>
      match f.value with
      | Value.text s => compareOp f.op m.content s
      | _ => otherKind f.op
  | Field.type =>
      match f.value with
      | Value.memoryType t => memberOp f.op (decide (m.memoryType = t))
      | _ => otherKind f.op
  | Field.tag =>
      match f.value with
      | Value.text s => memberOp f.op (decide (s ∈ m.tags))
      | _ => otherKind f.op
  | Field.agent => uuidHolds f.op f.value m.agentId.uuid
  | Field.space => uuidHolds f.op f.value m.spaceId.uuid
  | Field.salience => scoreHolds f.op f.value m.salience
  | Field.confidence => scoreHolds f.op f.value m.confidence
  | Field.created => instantHolds f.op f.value m.createdAt
  | Field.accessed => instantHolds f.op f.value m.accessedAt

def satisfiesAll (m : MemoryNode F) (filters : List (Filter F)) : Bool := filters.all (satisfies m)

/-- The memory is one that the scan of the plan is to return. -/
def scanned (m : MemoryNode F) : QueryPlan F -> Bool
  | QueryPlan.tagScan tags filters _ =>
      tags.all (fun tag => decide (tag ∈ m.tags)) && satisfiesAll m filters
  | QueryPlan.temporalScan start stop filters =>
      decide (start <= m.createdAt) && decide (m.createdAt <= stop) && satisfiesAll m filters
  | _ => true

/-- The plan returns exactly what the statement asks for. -/
def Preserves (statement : RecallStatement F) (plan : QueryPlan F) : Prop :=
  forall m : MemoryNode F, satisfiesAll m statement.filters = true <-> scanned m plan = true

/-!
## When the meaning is kept
-/

omit [Scalar F] in
/-- Only {lit}`tag = "..."`, apart from values that no tag can equal. -/
def PlainTags (filters : List (Filter F)) : Prop :=
  forall f, f ∈ filters ->
    (f.op = Operator.eq ∧ (textOf f.value).isSome = true) ∨
      (f.op = Operator.neq ∧ textOf f.value = none)

omit [Scalar F] in
/-- The last integer bound of one side. -/
def lastInteger (side : Operator -> Bool) (timeFilters : List (Filter F)) : Option Int64 :=
  timeFilters.reverse.findSome? (fun f =>
    match f.value with
    | Value.integer n => if side f.op then some n else none
    | _ => none)

omit [Scalar F] in
/-- The last integer lower bound; a negative one is read as the instant it wraps to. -/
def firstInstant (timeFilters : List (Filter F)) : Timestamp :=
  ((lastInteger Operator.isLower timeFilters).map Int64.toUInt64).getD 0

omit [Scalar F] in
def lastInstant (timeFilters : List (Filter F)) : Timestamp :=
  ((lastInteger Operator.isUpper timeFilters).map Int64.toUInt64).getD maxTimestamp

/-- A bound of this side on the field leaves the instant out. -/
def Excludes (timeFilters : List (Filter F)) (side : Operator -> Bool) (field : Field)
    (t : Timestamp) : Prop :=
  exists f, f ∈ timeFilters ∧ f.field = field ∧ side f.op = true ∧
    instantHolds f.op f.value t = false

def Follows (t t' : Timestamp) : Prop := t'.toNat = t.toNat + 1

/-- The last integer bounds are the right ones: the bounds on the creation time admit both
and leave out the instants next to them, and those on the access time admit the first and
the last instant there is. -/
structure ExactBounds (timeFilters : List (Filter F)) : Prop where
  ordered : firstInstant timeFilters <= lastInstant timeFilters
  admitsFirst : forall f, f ∈ timeFilters -> f.field = Field.created ->
    instantHolds f.op f.value (firstInstant timeFilters) = true
  admitsLast : forall f, f ∈ timeFilters -> f.field = Field.created ->
    instantHolds f.op f.value (lastInstant timeFilters) = true
  accessedFree : forall f, f ∈ timeFilters -> f.field = Field.accessed ->
    instantHolds f.op f.value 0 = true ∧ instantHolds f.op f.value maxTimestamp = true
  before : forall t, Follows t (firstInstant timeFilters) ->
    Excludes timeFilters Operator.isLower Field.created t
  after : forall t, Follows (lastInstant timeFilters) t ->
    Excludes timeFilters Operator.isUpper Field.created t

/-- The bound at a creation and an access time. -/
def boundHolds (created accessed : Timestamp) (f : Filter F) : Bool :=
  instantHolds f.op f.value (if f.field = Field.created then created else accessed)

/-- The bounds on the field meet: a lower one leaves out everything, or an upper one does, or
a lower one leaves out an instant and an upper one the next. -/
def Meet (timeFilters : List (Filter F)) (field : Field) : Prop :=
  Excludes timeFilters Operator.isLower field maxTimestamp ∨
    Excludes timeFilters Operator.isUpper field 0 ∨
    exists t t', Follows t t' ∧ Excludes timeFilters Operator.isLower field t ∧
      Excludes timeFilters Operator.isUpper field t'

/-- The last integer bounds contradict each other, and so do the bounds on one of the fields. -/
def Contradictory (timeFilters : List (Filter F)) : Prop :=
  lastInstant timeFilters < firstInstant timeFilters ∧ exists field, Meet timeFilters field

/-- Filters the planner keeps the meaning of. -/
def Faithful (filters : List (Filter F)) : Prop :=
  if filters ≠ [] ∧ filters.all (fun f => decide (f.field = Field.tag)) then PlainTags filters
  else
    filters.filter Filter.isTimeRange = [] ∨ ExactBounds (filters.filter Filter.isTimeRange) ∨
      Contradictory (filters.filter Filter.isTimeRange)

/-- The filters that are not bounds can be met at any instants. -/
def FreeInstants (filters : List (Filter F)) : Prop :=
  forall created accessed, exists m : MemoryNode F, m.createdAt = created ∧
    m.accessedAt = accessed ∧ satisfiesAll m (filters.filter (fun f => !f.isTimeRange)) = true

/-!
### Tags
-/

section Tags

variable {filters : List (Filter F)}

theorem satisfies_plainTag {m : MemoryNode F} {f : Filter F} (htag : f.field = Field.tag)
    (hplain : (f.op = Operator.eq ∧ (textOf f.value).isSome = true) ∨
      (f.op = Operator.neq ∧ textOf f.value = none)) :
    satisfies m f = true <-> forall tag, textOf f.value = some tag -> tag ∈ m.tags := by
  unfold satisfies
  rw [htag]
  simp only
  rcases hplain with ⟨hop, htext⟩ | ⟨hop, htext⟩
  · rw [hop]
    cases hvalue : f.value with
    | text t => simp [textOf, memberOp]
    | _ =>
        rw [hvalue] at htext
        cases htext
  · rw [hop]
    cases hvalue : f.value with
    | text t =>
        rw [hvalue] at htext
        cases htext
    | _ => simp [textOf, otherKind]

omit [Scalar F] in
/-- A memory that carries the given tags and nothing else. -/
def carrier (tags : List String) (blank : MemoryNode F) : MemoryNode F :=
  { blank with tags := tags }

/-- A filter that is not plain fails on a memory with every tag the filters name. -/
theorem satisfies_carrier {f : Filter F} (htag : f.field = Field.tag) {tags : List String}
    (hnamed : forall tag, textOf f.value = some tag -> tag ∈ tags) {blank : MemoryNode F}
    (hholds : satisfies (carrier tags blank) f = true) :
    (f.op = Operator.eq ∧ (textOf f.value).isSome = true) ∨
      (f.op = Operator.neq ∧ textOf f.value = none) := by
  unfold satisfies at hholds
  rw [htag] at hholds
  simp only at hholds
  cases hvalue : f.value with
  | text t =>
      rw [hvalue] at hholds hnamed
      have hmem : t ∈ tags := hnamed t rfl
      cases hop : f.op with
      | eq => exact Or.inl ⟨rfl, rfl⟩
      | neq =>
          rw [hop] at hholds
          simp [memberOp, carrier, hmem] at hholds
      | _ =>
          rw [hop] at hholds
          cases hholds
  | _ =>
      rw [hvalue] at hholds
      exact Or.inr ⟨of_decide_eq_true hholds, rfl⟩

theorem preserves_tagScan_iff (blank : MemoryNode F)
    (htags : forall f, f ∈ filters -> f.field = Field.tag) (limit : Option Nat) :
    (forall m : MemoryNode F, satisfiesAll m filters = true <->
      scanned m (QueryPlan.tagScan (filters.filterMap (fun f => textOf f.value)) [] limit) =
        true) <->
      PlainTags filters := by
  have hscan : forall m : MemoryNode F,
      scanned m (QueryPlan.tagScan (filters.filterMap (fun f => textOf f.value)) [] limit) = true
        <-> forall f, f ∈ filters -> forall tag, textOf f.value = some tag -> tag ∈ m.tags := by
    intro m
    simp only [scanned, satisfiesAll, List.all_nil, Bool.and_true, List.all_eq_true,
      decide_eq_true_eq, List.mem_filterMap]
    constructor
    · intro h f hf tag htext
      exact h tag ⟨f, hf, htext⟩
    · intro h tag hex
      rcases hex with ⟨f, hf, htext⟩
      exact h f hf tag htext
  constructor
  · intro h f hf
    have hall := (h (carrier (filters.filterMap (fun f => textOf f.value)) blank)).mpr
      ((hscan _).mpr (fun g hg tag htext => List.mem_filterMap.mpr ⟨g, hg, htext⟩))
    refine satisfies_carrier (htags f hf) ?_ (List.all_eq_true.mp hall f hf)
    intro tag htext
    exact List.mem_filterMap.mpr ⟨f, hf, htext⟩
  · intro hplain m
    rw [hscan]
    unfold satisfiesAll
    rw [List.all_eq_true]
    constructor
    · intro h f hf
      exact (satisfies_plainTag (htags f hf) (hplain f hf)).mp (h f hf)
    · intro h f hf
      exact (satisfies_plainTag (htags f hf) (hplain f hf)).mpr (h f hf)

end Tags

/-!
### Bounds
-/

section Bounds

omit [Scalar F] in
theorem compareOp_lower_mono {α : Type} [LinearOrder α] {op : Operator} {a a' b : α}
    (hop : op.isLower = true) (hle : a <= a') (h : compareOp op a b = true) :
    compareOp op a' b = true := by
  cases op with
  | gt => exact decide_eq_true (lt_of_lt_of_le (of_decide_eq_true h) hle)
  | gte => exact decide_eq_true (le_trans (of_decide_eq_true h) hle)
  | _ => cases hop

omit [Scalar F] in
theorem compareOp_upper_anti {α : Type} [LinearOrder α] {op : Operator} {a a' b : α}
    (hop : op.isUpper = true) (hle : a' <= a) (h : compareOp op a b = true) :
    compareOp op a' b = true := by
  cases op with
  | lt => exact decide_eq_true (lt_of_le_of_lt hle (of_decide_eq_true h))
  | lte => exact decide_eq_true (le_trans hle (of_decide_eq_true h))
  | _ => cases hop

theorem instantHolds_lower_mono {op : Operator} {value : Value F} {t t' : Timestamp}
    (hop : op.isLower = true) (hle : t <= t') (h : instantHolds op value t = true) :
    instantHolds op value t' = true := by
  have hnat : t.toNat <= t'.toNat := UInt64.le_iff_toNat_le.mp hle
  cases value with
  | integer n => exact compareOp_lower_mono hop (Int.ofNat_le.mpr hnat) h
  | number x => exact compareOp_lower_mono hop (Nat.cast_le.mpr hnat) h
  | _ => exact h

theorem instantHolds_upper_anti {op : Operator} {value : Value F} {t t' : Timestamp}
    (hop : op.isUpper = true) (hle : t' <= t) (h : instantHolds op value t = true) :
    instantHolds op value t' = true := by
  have hnat : t'.toNat <= t.toNat := UInt64.le_iff_toNat_le.mp hle
  cases value with
  | integer n => exact compareOp_upper_anti hop (Int.ofNat_le.mpr hnat) h
  | number x => exact compareOp_upper_anti hop (Nat.cast_le.mpr hnat) h
  | _ => exact h

/-- A bound that holds at both ends of an interval holds in between. -/
theorem instantHolds_between {f : Filter F} (hrange : f.isTimeRange = true)
    {first last t : Timestamp} (hfirst : instantHolds f.op f.value first = true)
    (hlast : instantHolds f.op f.value last = true) (hle : first <= t) (hle' : t <= last) :
    instantHolds f.op f.value t = true := by
  have hbound : (f.op.isLower || f.op.isUpper) = true := (Bool.and_eq_true_iff.mp hrange).2
  rcases Bool.or_eq_true_iff.mp hbound with hlower | hupper
  · exact instantHolds_lower_mono hlower hle hfirst
  · exact instantHolds_upper_anti hupper hle' hlast

omit [Scalar F] in
theorem field_of_isTimeRange {f : Filter F} (h : f.isTimeRange = true) :
    f.field = Field.created ∨ f.field = Field.accessed := by
  have hfield := (Bool.and_eq_true_iff.mp h).1
  rcases Bool.or_eq_true_iff.mp hfield with hcreated | haccessed
  · exact Or.inl (of_decide_eq_true hcreated)
  · exact Or.inr (of_decide_eq_true haccessed)

theorem satisfies_eq_boundHolds {m : MemoryNode F} {f : Filter F} (h : f.isTimeRange = true) :
    satisfies m f = boundHolds m.createdAt m.accessedAt f := by
  unfold satisfies boundHolds
  rcases field_of_isTimeRange h with hfield | hfield
  · rw [hfield]
    rfl
  · rw [hfield]
    rfl

omit [Scalar F] in
/-- The planner's interval lies between the last integer bounds. -/
theorem timeBounds_eq (timeFilters : List (Filter F)) :
    timeBounds timeFilters = (firstInstant timeFilters, lastInstant timeFilters) := by
  induction timeFilters using List.reverseRecOn with
  | nil => rfl
  | append_singleton rest f ih =>
      unfold timeBounds at ih ⊢
      rw [List.foldl_append, ih]
      unfold firstInstant lastInstant lastInteger
      rw [List.reverse_append]
      simp only [List.foldl_cons, List.foldl_nil, List.reverse_singleton, List.singleton_append,
        List.findSome?_cons]
      cases hvalue : f.value with
      | integer n => cases hop : f.op <;> simp [narrow, hvalue, hop, Operator.isLower,
          Operator.isUpper]
      | _ => simp [narrow, hvalue]

variable {timeFilters : List (Filter F)} {field : Field} {t t' : Timestamp}

theorem Excludes.before (h : Excludes timeFilters Operator.isLower field t) (hle : t' <= t) :
    Excludes timeFilters Operator.isLower field t' := by
  rcases h with ⟨f, hf, hfield, hside, hfails⟩
  refine ⟨f, hf, hfield, hside, ?_⟩
  rw [Bool.eq_false_iff] at hfails ⊢
  exact fun hholds => hfails (instantHolds_lower_mono hside hle hholds)

theorem Excludes.after (h : Excludes timeFilters Operator.isUpper field t) (hle : t <= t') :
    Excludes timeFilters Operator.isUpper field t' := by
  rcases h with ⟨f, hf, hfield, hside, hfails⟩
  refine ⟨f, hf, hfield, hside, ?_⟩
  rw [Bool.eq_false_iff] at hfails ⊢
  exact fun hholds => hfails (instantHolds_upper_anti hside hle hholds)

theorem Excludes.exists_fails {side : Operator -> Bool} (h : Excludes timeFilters side field t) :
    exists f, f ∈ timeFilters ∧ f.field = field ∧ instantHolds f.op f.value t = false := by
  rcases h with ⟨f, hf, hfield, _, hfails⟩
  exact ⟨f, hf, hfield, hfails⟩

/-- A bound that fails is one of a side. -/
theorem excludes_of_fails (hrange : forall f, f ∈ timeFilters -> f.isTimeRange = true)
    {f : Filter F} (hf : f ∈ timeFilters) (hfails : instantHolds f.op f.value t = false) :
    Excludes timeFilters Operator.isLower f.field t ∨
      Excludes timeFilters Operator.isUpper f.field t := by
  rcases Bool.or_eq_true_iff.mp (Bool.and_eq_true_iff.mp (hrange f hf)).2 with hlower | hupper
  · exact Or.inl ⟨f, hf, rfl, hlower, hfails⟩
  · exact Or.inr ⟨f, hf, rfl, hupper, hfails⟩

/-- Bounds that meet leave out every instant. -/
theorem Meet.exists_fails (h : Meet timeFilters field) (t : Timestamp) :
    exists f, f ∈ timeFilters ∧ f.field = field ∧ instantHolds f.op f.value t = false := by
  rcases h with hlower | hupper | ⟨first, second, hnext, hlower, hupper⟩
  · exact (hlower.before (UInt64.le_iff_toNat_le.mpr (Nat.le_of_lt_succ t.toNat_lt))).exists_fails
  · exact (hupper.after (UInt64.le_iff_toNat_le.mpr (Nat.zero_le _))).exists_fails
  · by_cases hle : t <= first
    · exact (hlower.before hle).exists_fails
    · refine (hupper.after (UInt64.le_iff_toNat_le.mpr ?_)).exists_fails
      rw [UInt64.le_iff_toNat_le] at hle
      unfold Follows at hnext
      omega

/-- Bounds that leave out every instant meet where the lower ones end. -/
theorem meet_of_forall_excluded (h : forall t,
    Excludes timeFilters Operator.isLower field t ∨
      Excludes timeFilters Operator.isUpper field t) : Meet timeFilters field := by
  by_contra hapart
  have hsize : UInt64.size = 2 ^ 64 := rfl
  have hlower : forall n, n < 2 ^ 64 ->
      Excludes timeFilters Operator.isLower field (UInt64.ofNat n) := by
    intro n
    induction n with
    | zero =>
        intro _
        exact (h 0).resolve_right (fun hupper => hapart (Or.inr (Or.inl hupper)))
    | succ n ih =>
        intro hn
        refine (h (UInt64.ofNat (n + 1))).resolve_right (fun hupper => hapart ?_)
        refine Or.inr (Or.inr ⟨UInt64.ofNat n, _, ?_, ih (by omega), hupper⟩)
        unfold Follows
        rw [UInt64.toNat_ofNat_of_lt' hn, UInt64.toNat_ofNat_of_lt' (Nat.lt_of_succ_lt hn)]
  exact hapart (Or.inl (hlower (2 ^ 64 - 1) (by decide)))

/-- The bounds hold just inside the planned interval. -/
def HoldInside (timeFilters : List (Filter F)) : Prop :=
  forall created accessed, timeFilters.all (boundHolds created accessed) = true <->
    firstInstant timeFilters <= created ∧ created <= lastInstant timeFilters

theorem ExactBounds.holdInside (h : ExactBounds timeFilters)
    (hrange : forall f, f ∈ timeFilters -> f.isTimeRange = true) : HoldInside timeFilters := by
  intro created accessed
  have hsize : UInt64.size = 2 ^ 64 := rfl
  rw [List.all_eq_true]
  constructor
  · intro hall
    have hcreated : forall side, ¬ Excludes timeFilters side Field.created created := by
      intro side hout
      rcases hout.exists_fails with ⟨f, hf, hfield, hfails⟩
      have hholds := hall f hf
      unfold boundHolds at hholds
      rw [if_pos hfield, hfails] at hholds
      cases hholds
    constructor
    · by_contra hbefore
      rw [UInt64.le_iff_toNat_le, Nat.not_le] at hbefore
      have hfirst := (firstInstant timeFilters).toNat_lt
      have htoNat : (UInt64.ofNat ((firstInstant timeFilters).toNat - 1)).toNat =
          (firstInstant timeFilters).toNat - 1 := UInt64.toNat_ofNat_of_lt' (by omega)
      refine hcreated _ ((h.before (UInt64.ofNat ((firstInstant timeFilters).toNat - 1))
        ?_).before (UInt64.le_iff_toNat_le.mpr ?_))
      · unfold Follows
        omega
      · omega
    · by_contra hafter
      rw [UInt64.le_iff_toNat_le, Nat.not_le] at hafter
      have hlast := created.toNat_lt
      have htoNat : (UInt64.ofNat ((lastInstant timeFilters).toNat + 1)).toNat =
          (lastInstant timeFilters).toNat + 1 := UInt64.toNat_ofNat_of_lt' (by omega)
      refine hcreated _ ((h.after (UInt64.ofNat ((lastInstant timeFilters).toNat + 1))
        ?_).after (UInt64.le_iff_toNat_le.mpr ?_))
      · unfold Follows
        omega
      · omega
  · intro hinside f hf
    unfold boundHolds
    rcases field_of_isTimeRange (hrange f hf) with hfield | hfield
    · rw [if_pos hfield]
      exact instantHolds_between (hrange f hf) (h.admitsFirst f hf hfield)
        (h.admitsLast f hf hfield) hinside.1 hinside.2
    · have hother : ¬ f.field = Field.created := by
        rw [hfield]
        exact Field.noConfusion
      rw [if_neg hother]
      have hends := h.accessedFree f hf hfield
      exact instantHolds_between (hrange f hf) hends.1 hends.2
        (UInt64.le_iff_toNat_le.mpr (Nat.zero_le _))
        (UInt64.le_iff_toNat_le.mpr (Nat.le_of_lt_succ accessed.toNat_lt))

theorem Contradictory.not_boundsHold (h : Contradictory timeFilters)
    (created accessed : Timestamp) :
    timeFilters.all (boundHolds created accessed) = false := by
  rcases h.2 with ⟨field, hmeet⟩
  rw [List.all_eq_false]
  by_cases hfield : field = Field.created
  · rcases hmeet.exists_fails created with ⟨f, hf, hon, hfails⟩
    refine ⟨f, hf, ?_⟩
    unfold boundHolds
    rw [if_pos (hon.trans hfield), hfails]
    exact Bool.false_ne_true
  · rcases hmeet.exists_fails accessed with ⟨f, hf, hon, hfails⟩
    refine ⟨f, hf, ?_⟩
    unfold boundHolds
    rw [if_neg (fun heq => hfield (hon.symm.trans heq)), hfails]
    exact Bool.false_ne_true

/-- Bounds that hold together at no instants meet on one of the two fields. -/
theorem meet_of_not_boundsHold (hrange : forall f, f ∈ timeFilters -> f.isTimeRange = true)
    (h : forall created accessed, timeFilters.all (boundHolds created accessed) = false) :
    exists field, Meet timeFilters field := by
  by_contra hnone
  have hadmits : forall field, exists t, forall f, f ∈ timeFilters -> f.field = field ->
      instantHolds f.op f.value t = true := by
    intro field
    by_contra hall
    push Not at hall
    refine hnone ⟨field, meet_of_forall_excluded (fun t => ?_)⟩
    rcases hall t with ⟨f, hf, hfield, hfails⟩
    rw [← hfield]
    exact excludes_of_fails hrange hf (Bool.eq_false_iff.mpr hfails)
  rcases hadmits Field.created with ⟨created, hcreated⟩
  rcases hadmits Field.accessed with ⟨accessed, haccessed⟩
  refine absurd (h created accessed) (Bool.eq_false_iff.not.mpr (not_not.mpr ?_))
  rw [List.all_eq_true]
  intro f hf
  unfold boundHolds
  split
  · rename_i hfield
    exact hcreated f hf hfield
  · rename_i hother
    exact haccessed f hf ((field_of_isTimeRange (hrange f hf)).resolve_left hother)

theorem HoldInside.created (h : HoldInside timeFilters) {f : Filter F} (hf : f ∈ timeFilters)
    (hfield : f.field = Field.created) {created : Timestamp}
    (hfirst : firstInstant timeFilters <= created) (hlast : created <= lastInstant timeFilters) :
    instantHolds f.op f.value created = true := by
  have hholds := List.all_eq_true.mp ((h created 0).mpr ⟨hfirst, hlast⟩) f hf
  unfold boundHolds at hholds
  rw [if_pos hfield] at hholds
  exact hholds

theorem HoldInside.accessed (h : HoldInside timeFilters)
    (hordered : firstInstant timeFilters <= lastInstant timeFilters) {f : Filter F}
    (hf : f ∈ timeFilters) (hfield : f.field = Field.accessed) (t : Timestamp) :
    instantHolds f.op f.value t = true := by
  have hother : ¬ f.field = Field.created := by
    rw [hfield]
    exact Field.noConfusion
  have hholds := List.all_eq_true.mp ((h _ t).mpr ⟨UInt64.le_refl _, hordered⟩) f hf
  unfold boundHolds at hholds
  rw [if_neg hother] at hholds
  exact hholds

/-- A bound that fails outside the interval is one on the creation time. -/
theorem HoldInside.exists_fails (h : HoldInside timeFilters)
    (hrange : forall f, f ∈ timeFilters -> f.isTimeRange = true)
    (hordered : firstInstant timeFilters <= lastInstant timeFilters) {t : Timestamp}
    (hout : ¬ (firstInstant timeFilters <= t ∧ t <= lastInstant timeFilters)) :
    exists f, f ∈ timeFilters ∧ f.field = Field.created ∧
      instantHolds f.op f.value t = false := by
  have hsome : ¬ forall f, f ∈ timeFilters -> boundHolds t 0 f = true := by
    intro hall
    exact hout ((h t 0).mp (List.all_eq_true.mpr hall))
  push Not at hsome
  rcases hsome with ⟨f, hf, hfails⟩
  refine ⟨f, hf, ?_⟩
  unfold boundHolds at hfails
  rcases field_of_isTimeRange (hrange f hf) with hfield | hfield
  · rw [if_pos hfield] at hfails
    exact ⟨hfield, Bool.eq_false_iff.mpr hfails⟩
  · exact absurd (h.accessed hordered hf hfield _) hfails

/-- Before the interval a lower bound fails, after it an upper one. -/
theorem HoldInside.exactBounds (h : HoldInside timeFilters)
    (hrange : forall f, f ∈ timeFilters -> f.isTimeRange = true)
    (hordered : firstInstant timeFilters <= lastInstant timeFilters) :
    ExactBounds timeFilters where
  ordered := hordered
  admitsFirst f hf hfield := h.created hf hfield (UInt64.le_refl _) hordered
  admitsLast f hf hfield := h.created hf hfield hordered (UInt64.le_refl _)
  accessedFree f hf hfield :=
    ⟨h.accessed hordered hf hfield 0, h.accessed hordered hf hfield maxTimestamp⟩
  before := by
    intro t ht
    have hlt : t.toNat < (firstInstant timeFilters).toNat := by
      unfold Follows at ht
      omega
    have hout : ¬ (firstInstant timeFilters <= t ∧ t <= lastInstant timeFilters) :=
      fun hin => absurd (UInt64.le_iff_toNat_le.mp hin.1) (by omega)
    rcases h.exists_fails hrange hordered hout with ⟨f, hf, hfield, hfails⟩
    refine ⟨f, hf, hfield, ?_, hfails⟩
    rcases Bool.or_eq_true_iff.mp (Bool.and_eq_true_iff.mp (hrange f hf)).2 with hop | hop
    · exact hop
    · have hholds := instantHolds_upper_anti hop
        (UInt64.le_iff_toNat_le.mpr (Nat.le_of_lt hlt))
        (h.created hf hfield (UInt64.le_refl _) hordered)
      rw [hfails] at hholds
      cases hholds
  after := by
    intro t ht
    have hlt : (lastInstant timeFilters).toNat < t.toNat := by
      unfold Follows at ht
      omega
    have hout : ¬ (firstInstant timeFilters <= t ∧ t <= lastInstant timeFilters) :=
      fun hin => absurd (UInt64.le_iff_toNat_le.mp hin.2) (by omega)
    rcases h.exists_fails hrange hordered hout with ⟨f, hf, hfield, hfails⟩
    refine ⟨f, hf, hfield, ?_, hfails⟩
    rcases Bool.or_eq_true_iff.mp (Bool.and_eq_true_iff.mp (hrange f hf)).2 with hop | hop
    · have hholds := instantHolds_lower_mono hop
        (UInt64.le_iff_toNat_le.mpr (Nat.le_of_lt hlt))
        (h.created hf hfield hordered (UInt64.le_refl _))
      rw [hfails] at hholds
      cases hholds
    · exact hop

/-- Bounds that hold just inside the planned interval are exact, or contradict each
other. -/
theorem exact_of_holdInside (hrange : forall f, f ∈ timeFilters -> f.isTimeRange = true)
    (h : HoldInside timeFilters) : ExactBounds timeFilters ∨ Contradictory timeFilters := by
  by_cases hordered : firstInstant timeFilters <= lastInstant timeFilters
  · exact Or.inl (h.exactBounds hrange hordered)
  · right
    refine ⟨UInt64.not_le.mp hordered, meet_of_not_boundsHold hrange ?_⟩
    intro created accessed
    rw [Bool.eq_false_iff]
    intro hall
    have hinside := (h created accessed).mp hall
    exact hordered (UInt64.le_trans hinside.1 hinside.2)

end Bounds

/-!
### Statements
-/

theorem satisfiesAll_split (m : MemoryNode F) (filters : List (Filter F)) :
    satisfiesAll m filters = true <->
      satisfiesAll m (filters.filter Filter.isTimeRange) = true ∧
        satisfiesAll m (filters.filter (fun f => !f.isTimeRange)) = true := by
  unfold satisfiesAll
  simp only [List.all_eq_true, List.mem_filter]
  constructor
  · intro h
    exact ⟨fun f hf => h f hf.1, fun f hf => h f hf.1⟩
  · intro h f hf
    cases hrange : f.isTimeRange with
    | true => exact h.1 f ⟨hf, hrange⟩
    | false => exact h.2 f ⟨hf, by rw [hrange]; rfl⟩

theorem satisfiesAll_bounds (m : MemoryNode F) (filters : List (Filter F)) :
    satisfiesAll m (filters.filter Filter.isTimeRange) =
      (filters.filter Filter.isTimeRange).all (boundHolds m.createdAt m.accessedAt) := by
  unfold satisfiesAll
  rw [Bool.eq_iff_iff, List.all_eq_true, List.all_eq_true]
  constructor
  · intro h f hf
    rw [← satisfies_eq_boundHolds (List.mem_filter.mp hf).2]
    exact h f hf
  · intro h f hf
    rw [satisfies_eq_boundHolds (List.mem_filter.mp hf).2]
    exact h f hf

theorem scanned_temporalScan {m : MemoryNode F} {start stop : Timestamp}
    {filters : List (Filter F)} :
    scanned m (QueryPlan.temporalScan start stop filters) = true <->
      (start <= m.createdAt ∧ m.createdAt <= stop) ∧ satisfiesAll m filters = true := by
  simp [scanned]

theorem preserves_of_bounds {statement : RecallStatement F}
    (h : ExactBounds (statement.filters.filter Filter.isTimeRange) ∨
      Contradictory (statement.filters.filter Filter.isTimeRange)) :
    Preserves statement (QueryPlan.temporalScan
      (timeBounds (statement.filters.filter Filter.isTimeRange)).1
      (timeBounds (statement.filters.filter Filter.isTimeRange)).2
      (statement.filters.filter (fun f => !f.isTimeRange))) := by
  intro m
  rw [satisfiesAll_split, scanned_temporalScan, satisfiesAll_bounds, timeBounds_eq]
  refine and_congr_left (fun _ => ?_)
  rcases h with hexact | hcontradictory
  · exact hexact.holdInside (fun f hf => (List.mem_filter.mp hf).2) _ _
  · rw [hcontradictory.not_boundsHold]
    constructor
    · intro hfalse
      cases hfalse
    · intro hinside
      exact absurd (UInt64.le_trans hinside.1 hinside.2) (UInt64.not_le.mpr hcontradictory.1)

theorem bounds_of_preserves {statement : RecallStatement F} (hfree : FreeInstants statement.filters)
    (h : Preserves statement (QueryPlan.temporalScan
      (timeBounds (statement.filters.filter Filter.isTimeRange)).1
      (timeBounds (statement.filters.filter Filter.isTimeRange)).2
      (statement.filters.filter (fun f => !f.isTimeRange)))) :
    ExactBounds (statement.filters.filter Filter.isTimeRange) ∨
      Contradictory (statement.filters.filter Filter.isTimeRange) := by
  refine exact_of_holdInside (fun f hf => (List.mem_filter.mp hf).2) ?_
  intro created accessed
  rcases hfree created accessed with ⟨m, hcreated, haccessed, hrest⟩
  have hm := h m
  rw [satisfiesAll_split, scanned_temporalScan, satisfiesAll_bounds, hrest, hcreated,
    haccessed, timeBounds_eq] at hm
  simpa using hm

/-- Filters that are kept whole keep their meaning. -/
theorem preserves_fullScan (statement : RecallStatement F) (limit : Option Nat) :
    Preserves statement (QueryPlan.tagScan [] statement.filters limit) := by
  intro m
  simp [scanned]

/-- Every filter is one on tags, and there is one. -/
def TagsOnly (filters : List (Filter F)) : Prop :=
  filters ≠ [] ∧ filters.all (fun f => decide (f.field = Field.tag)) = true

omit [Scalar F] in
theorem find?_similarTo_eq_none {filters : List (Filter F)}
    (h : forall f, f ∈ filters -> f.op ≠ Operator.similarTo) :
    filters.find? (fun f => decide (f.op = Operator.similarTo)) = none := by
  rw [List.find?_eq_none]
  intro f hf hsimilar
  exact h f hf (of_decide_eq_true hsimilar)

omit [Scalar F] in
theorem filter_tag_eq_self {filters : List (Filter F)}
    (h : filters.all (fun f => decide (f.field = Field.tag)) = true) :
    filters.filter (fun f => decide (f.field = Field.tag)) = filters :=
  List.filter_eq_self.mpr (List.all_eq_true.mp h)

omit [Scalar F] in
theorem planRecall_of_tagsOnly {statement : RecallStatement F} (hnear : statement.near = none)
    (hcompare : forall f, f ∈ statement.filters -> f.op ≠ Operator.similarTo)
    (htags : TagsOnly statement.filters) :
    planRecall statement = Except.ok (QueryPlan.tagScan
      (statement.filters.filterMap (fun f => textOf f.value)) []
      (some (statement.limit.getD defaultLimit))) := by
  unfold planRecall
  simp only [hnear, find?_similarTo_eq_none hcompare, filter_tag_eq_self htags.2]
  exact if_pos htags

omit [Scalar F] in
/-- The test that the planner makes for a scan of tags. -/
theorem not_tagScan {filters : List (Filter F)} (htags : ¬ TagsOnly filters) :
    ¬ (filters.filter (fun f => decide (f.field = Field.tag)) ≠ [] ∧
      filters.all (fun f => decide (f.field = Field.tag)) = true) := by
  intro h
  rw [filter_tag_eq_self h.2] at h
  exact htags h

omit [Scalar F] in
theorem planRecall_of_bounds {statement : RecallStatement F} (hnear : statement.near = none)
    (hcompare : forall f, f ∈ statement.filters -> f.op ≠ Operator.similarTo)
    (htags : ¬ TagsOnly statement.filters)
    (hbounds : statement.filters.filter Filter.isTimeRange ≠ []) :
    planRecall statement = Except.ok (QueryPlan.temporalScan
      (timeBounds (statement.filters.filter Filter.isTimeRange)).1
      (timeBounds (statement.filters.filter Filter.isTimeRange)).2
      (statement.filters.filter (fun f => !f.isTimeRange))) := by
  unfold planRecall
  simp only [hnear, find?_similarTo_eq_none hcompare]
  rw [if_neg (not_tagScan htags), if_pos hbounds]

omit [Scalar F] in
theorem planRecall_of_neither {statement : RecallStatement F} (hnear : statement.near = none)
    (hcompare : forall f, f ∈ statement.filters -> f.op ≠ Operator.similarTo)
    (htags : ¬ TagsOnly statement.filters)
    (hbounds : statement.filters.filter Filter.isTimeRange = []) :
    planRecall statement = Except.ok (QueryPlan.tagScan [] statement.filters
      (some (statement.limit.getD defaultLimit))) := by
  unfold planRecall
  simp only [hnear, find?_similarTo_eq_none hcompare]
  rw [if_neg (not_tagScan htags), if_neg (not_not.mpr hbounds)]

/-- A statement without a similarity is planned, with its meaning when its filters are
faithful, and only then when the filters that are no bounds leave the instants free. -/
theorem planRecall_preserves_iff (statement : RecallStatement F) (hnear : statement.near = none)
    (hcompare : forall f, f ∈ statement.filters -> f.op ≠ Operator.similarTo) :
    exists plan, planRecall statement = Except.ok plan ∧
      (Faithful statement.filters -> Preserves statement plan) ∧
      (FreeInstants statement.filters -> Preserves statement plan ->
        Faithful statement.filters) := by
  by_cases htags : TagsOnly statement.filters
  · have hiff := preserves_tagScan_iff
      (MemoryNode.new MemoryId.nil 0 AgentId.nil MemoryType.semantic "" [])
      (fun f hf => of_decide_eq_true (List.all_eq_true.mp htags.2 f hf))
      (some (statement.limit.getD defaultLimit))
    have hfaithful : Faithful statement.filters = PlainTags statement.filters := if_pos htags
    rw [hfaithful]
    exact ⟨_, planRecall_of_tagsOnly hnear hcompare htags, hiff.mpr, fun _ => hiff.mp⟩
  have hfaithful : Faithful statement.filters =
      (statement.filters.filter Filter.isTimeRange = [] ∨
        ExactBounds (statement.filters.filter Filter.isTimeRange) ∨
        Contradictory (statement.filters.filter Filter.isTimeRange)) := if_neg htags
  rw [hfaithful]
  by_cases hbounds : statement.filters.filter Filter.isTimeRange = []
  · exact ⟨_, planRecall_of_neither hnear hcompare htags hbounds,
      fun _ => preserves_fullScan statement _, fun _ _ => Or.inl hbounds⟩
  · refine ⟨_, planRecall_of_bounds hnear hcompare htags hbounds, ?_, ?_⟩
    · intro h
      exact preserves_of_bounds (h.resolve_left hbounds)
    · intro hfree hpreserves
      exact Or.inr (bounds_of_preserves hfree hpreserves)

end Meaning

/-!
### Concrete statements
-/

def recallWhere (filters : List (Filter Rat)) : RecallStatement Rat where
  filters := filters
  near := none
  limit := none
  orderBy := none

def notDraft : RecallStatement Rat :=
  recallWhere [⟨Field.tag, Operator.neq, Value.text "draft"⟩]

def afterFive : RecallStatement Rat :=
  recallWhere [⟨Field.created, Operator.gt, Value.integer 5⟩]

def atFive : MemoryNode Rat :=
  MemoryNode.new ⟨1⟩ 5 AgentId.nil MemoryType.semantic "note" []

/-- {lit}`tag != "draft"` is planned as a scan for drafts, and {lit}`created > 5` as one that
starts at 5. -/
theorem planRecall_changes_meaning :
    planRecall notDraft = Except.ok (QueryPlan.tagScan ["draft"] [] (some 20)) ∧
      satisfiesAll atFive notDraft.filters = true ∧
      scanned atFive (QueryPlan.tagScan ["draft"] [] (some 20)) = false ∧
      planRecall afterFive = Except.ok (QueryPlan.temporalScan 5 maxTimestamp []) ∧
      satisfiesAll atFive afterFive.filters = false ∧
      scanned atFive (QueryPlan.temporalScan 5 maxTimestamp []) = true := by
  refine ⟨rfl, ?_, ?_, rfl, ?_, ?_⟩
  · decide
  · decide
  · decide
  · decide

def fromFiveToNine : RecallStatement Rat :=
  recallWhere [⟨Field.created, Operator.gte, Value.integer 5⟩,
    ⟨Field.created, Operator.lte, Value.integer 9⟩]

theorem faithful_fromFiveToNine : Faithful fromFiveToNine.filters := by
  refine Or.inr (Or.inl ?_)
  exact
    { ordered := by decide
      admitsFirst := by decide
      admitsLast := by decide
      accessedFree := by decide
      before := by
        intro t ht
        have hnat : t.toNat = 4 := by
          have hfirst : (firstInstant (fromFiveToNine.filters.filter
            Filter.isTimeRange)).toNat = 5 := by decide
          unfold Follows at ht
          omega
        refine ⟨_, List.mem_cons_self, rfl, rfl, decide_eq_false ?_⟩
        rw [hnat]
        decide
      after := by
        intro t ht
        have hnat : t.toNat = 10 := by
          have hlast : (lastInstant (fromFiveToNine.filters.filter
            Filter.isTimeRange)).toNat = 9 := by decide
          unfold Follows at ht
          omega
        refine ⟨_, List.mem_cons_of_mem _ List.mem_cons_self, rfl, rfl, decide_eq_false ?_⟩
        rw [hnat]
        decide }

theorem planRecall_preserves_fromFiveToNine :
    exists plan, planRecall fromFiveToNine = Except.ok plan ∧ Preserves fromFiveToNine plan := by
  rcases planRecall_preserves_iff fromFiveToNine rfl (by decide) with ⟨plan, hplan, hkeeps, _⟩
  exact ⟨plan, hplan, hkeeps faithful_fromFiveToNine⟩

end Query
end MenteDb
