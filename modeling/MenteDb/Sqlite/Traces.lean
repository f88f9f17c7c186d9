import MenteDb.Foundation.Retention
import MenteDb.Sqlite.Fusion

/-!
# Traces of searches

When tracing is switched on, a search writes down what it was asked and how each of its hits was
found.  A trace and its hits are written in one transaction, which also deletes the oldest
traces.  A trace that cannot be written does not keep the search from being answered.
-/

namespace MenteDb
namespace Sqlite

open Foundation

variable {F : Type}

/-- A row of {lit}`retrieval_traces`. -/
structure TraceRow where
  queryText : Option String
  queryEmbeddingDim : Nat
  k : Nat
  fetchK : Nat
  tagsJson : String
  tagsOr : Bool
  timeStart : Option Timestamp
  timeEnd : Option Timestamp
  candidateCount : Nat
  resultCount : Nat
  configJson : String
  stageJson : String
  createdAt : Timestamp

/-- A row of {lit}`retrieval_trace_hits`. -/
structure HitRow (F : Type) where
  memoryId : MemoryId
  score : F
  source : String
  vectorRank : Option Nat
  bm25Rank : Option Nat
  salience : Option F
  explanationJson : String

structure TraceTables (F : Type) where
  traces : Assoc String TraceRow
  hits : Assoc (String × Nat) (HitRow F)

abbrev TraceTx (F : Type) := Atomic (TraceTables F) MenteError

/-- What a hit is explained by. -/
structure Explanation (F : Type) where
  signals : List String
  vectorRank : Option Nat
  keywordRank : Option Nat
  salience : Option F
  score : F
  rrfWeight : F
  salienceWeight : F
  recencyWeight : F
  recencyPrior : F

/-- The objects of a trace as JSON. -/
structure TraceTexts (F : Type) where
  config : RetrievalConfig F -> Nat -> String
  tags : List String -> String
  stages : List (String × Nat) -> String
  explanation : Explanation F -> String

/-- What one search has found. -/
structure Findings (F : Type) where
  candidateCount : Nat
  scored : List (MemoryId × F)
  vectorHits : List MemoryId
  bm25Hits : List MemoryId

/-- The request that is traced. -/
structure TraceRequest (F : Type) where
  query : Tables.SearchQuery F
  k : Nat
  config : RetrievalConfig F
  retention : Nat

/-- What the database comes up with: an identifier, the time, the order of equally old rows, and
whether it refuses to commit. -/
structure TraceDraw where
  traceId : String
  now : Timestamp
  order : HashOrder
  refused : Bool

namespace TraceTables

def empty : TraceTables F where
  traces := Assoc.empty
  hits := Assoc.empty

/-!
## Statements
-/

def usizeToI64 (n : Nat) : Except MenteError Unit :=
  if n < 2 ^ 63 then Except.ok ()
  else
    Except.error (MenteError.storage "out of range integral type conversion attempted")

def checkUsize (n : Nat) : TraceTx F := fun s => (usizeToI64 n).map (fun _ => s)

def insertTraceOn (traceId : String) (row : TraceRow) : TraceTx F := fun s =>
  if s.traces.contains traceId then
    Except.error
      (MenteError.storage "UNIQUE constraint failed: retrieval_traces.trace_id")
  else Except.ok { s with traces := s.traces.insert traceId row }

/-- A hit needs its trace. -/
def insertHitOn (traceId : String) (rank : Nat) (row : HitRow F) : TraceTx F := fun s =>
  if s.hits.contains (traceId, rank) then
    Except.error (MenteError.storage
      "UNIQUE constraint failed: retrieval_trace_hits.trace_id, retrieval_trace_hits.rank")
  else if !s.traces.contains traceId then
    Except.error (MenteError.storage "FOREIGN KEY constraint failed")
  else Except.ok { s with hits := s.hits.insert (traceId, rank) row }

def newestFirst (a b : String × TraceRow) : Bool := sqlLe b.2.createdAt a.2.createdAt

def deleteTrace (s : TraceTables F) (traceId : String) : TraceTables F where
  traces := s.traces.erase traceId
  hits := s.hits.deleteWhere (fun key _ => decide (key.1 = traceId))

/-- The traces behind the newest ones. -/
def staleTraces (order : HashOrder) (keep : Nat) (s : TraceTables F) : List String :=
  ((orderBy newestFirst (order.order s.traces.entries)).drop keep).map Prod.fst

def purgeOldTracesOn (order : HashOrder) (keep : Nat) : TraceTx F := fun s =>
  Except.ok ((staleTraces order keep s).foldl deleteTrace s)

/-!
## One trace
-/

/-- The place of a memory among the hits, counted from one. -/
def rankOf (hits : List MemoryId) (id : MemoryId) : Option Nat :=
  ((hits.zipIdx.map (fun hit => (hit.1, hit.2 + 1))).foldl
    (fun ranks hit => ranks.insert hit.1 hit.2) (Assoc.empty : Assoc MemoryId Nat)).find? id

def hitSource : Option Nat -> Option Nat -> String
  | some _, some _ => "hybrid"
  | some _, none => "vector"
  | none, some _ => "keyword"
  | none, none => "rerank"

def hitSignals (vectorRank bm25Rank : Option Nat) : List String :=
  (if vectorRank.isSome then ["vector"] else []) ++
    (if bm25Rank.isSome then ["keyword"] else [])

section Recording

variable (texts : TraceTexts F) (t : Tables F) (request : TraceRequest F) (found : Findings F)
  (draw : TraceDraw)

def traceHit (hit : MemoryId × F) : HitRow F :=
  let vectorRank := rankOf found.vectorHits hit.1
  let bm25Rank := rankOf found.bm25Hits hit.1
  let salience := t.salienceOf hit.1
  { memoryId := hit.1
    score := hit.2
    source := hitSource vectorRank bm25Rank
    vectorRank := vectorRank
    bm25Rank := bm25Rank
    salience := salience
    explanationJson := texts.explanation
      { signals := hitSignals vectorRank bm25Rank
        vectorRank := vectorRank
        keywordRank := bm25Rank
        salience := salience
        score := hit.2
        rrfWeight := request.config.rrfWeight
        salienceWeight := request.config.salienceWeight
        recencyWeight := request.config.recencyWeight
        recencyPrior := request.config.recencyPrior } }

def traceRow : TraceRow where
  queryText := request.query.text
  queryEmbeddingDim := request.query.embedding.length
  k := request.k
  fetchK := fetchK request.config request.k
  tagsJson := texts.tags (request.query.tags.getD [])
  tagsOr := request.query.tagsOr
  timeStart := request.query.timeRange.map Prod.fst
  timeEnd := request.query.timeRange.map Prod.snd
  candidateCount := found.candidateCount
  resultCount := found.scored.length
  configJson := texts.config request.config request.retention
  stageJson := texts.stages
    [("vector_candidates", found.vectorHits.length), ("keyword_candidates", found.bm25Hits.length),
      ("fused_candidates", found.candidateCount), ("final_results", found.scored.length),
      ("requested_k", request.k), ("fetch_k", fetchK request.config request.k)]
  createdAt := draw.now

/-- The rows of the hits with their ranks, counted from one. -/
def traceHits : List (HitRow F × Nat) :=
  (found.scored.map (traceHit texts t request found)).zipIdx 1

def commit : TraceTx F := fun s =>
  if draw.refused then Except.error (MenteError.storage "database or disk is full")
  else Except.ok s

def recordRetrievalTrace : TraceTx F :=
  Atomic.forEach
      [request.query.embedding.length, request.k, fetchK request.config request.k,
        found.candidateCount, found.scored.length] checkUsize
    |>.andThen (insertTraceOn draw.traceId (traceRow texts request found draw))
    |>.andThen (Atomic.forEach (traceHits texts t request found) (fun hit =>
        Atomic.andThen (checkUsize hit.2) (insertHitOn draw.traceId hit.2 hit.1)))
    |>.andThen (checkUsize request.retention)
    |>.andThen (purgeOldTracesOn draw.order request.retention)
    |>.andThen (commit draw)

end Recording

/-!
## Reading
-/

/-- The hits of a trace in the order of their ranks. -/
def retrievalTraceHits (s : TraceTables F) (traceId : String) : List (Nat × HitRow F) :=
  orderBy (fun a b => decide (a.1 <= b.1))
    ((s.hits.entries.filter (fun e => decide (e.1.1 = traceId))).map (fun e => (e.1.2, e.2)))

end TraceTables

/-!
## Traced searches
-/

section Searches

variable [Arith F]

/-- The stages of a search; none when nothing is searched. -/
def searchFindings (rankers : Rankers F) (o : HashOrder) (config : RetrievalConfig F)
    (t : Tables F) (dim : Nat) (query : Tables.SearchQuery F) (k : Nat) :
    Except MenteError (Option (Findings F)) :=
  if k = 0 ∨ query.embedding = [] then Except.ok none
  else do
    let candidates ← t.candidateSet rankers.limits query.tags query.tagsOr query.timeRange
    if candidates = some [] then
      Except.ok (some { candidateCount := 0, scored := [], vectorHits := [], bm25Hits := [] })
    else do
      let vector ← t.vectorHits rankers o dim query.embedding candidates (fetchK config k)
      let bm25 := t.bm25Hits rankers query.text (fetchK config k)
      let rrf := Tables.fuse config.rrfK (Tables.fuse config.rrfK Assoc.empty vector) bm25
      Except.ok (some
        { candidateCount := if vector = [] ∧ bm25 = [] then 0 else rrf.entries.length
          scored := Tables.finishSearch o config t candidates k vector bm25
          vectorHits := vector
          bm25Hits := bm25 })

/-- The database with its settings and its traces. -/
structure TracedStore (F : Type) where
  tables : Tables F
  config : RetrievalConfig F
  traceRetentionLimit : Nat
  traceRetrieval : Bool
  traced : TraceTables F

inductive TracedOp (F : Type) where
  | search (query : Tables.SearchQuery F) (dim k : Nat) (order : HashOrder) (draw : TraceDraw)
  | setRetrievalTracing (enabled : Bool)
  | setRetrievalConfig (config : RetrievalConfig F) (traceRetentionLimit : Nat)
  | write (change : Tables F -> Tables F)

/-- A trace that was written. -/
structure Recorded (F : Type) where
  traceId : String
  row : TraceRow
  hits : List (HitRow F)

namespace TracedStore

variable (texts : TraceTexts F) (rankers : Rankers F)

def request (s : TracedStore F) (query : Tables.SearchQuery F) (k : Nat) : TraceRequest F where
  query := query
  k := k
  config := s.config
  retention := s.traceRetentionLimit

/-- The tables of traces after a search, and what was recorded. -/
def record (s : TracedStore F) (query : Tables.SearchQuery F) (k : Nat) (draw : TraceDraw)
    (found : Findings F) : TraceTables F × Option (Recorded F) :=
  if s.traceRetrieval then
    match TraceTables.recordRetrievalTrace texts s.tables (s.request query k) found draw
        s.traced with
    | Except.error _ => (s.traced, none)
    | Except.ok traced =>
        (traced, some
          { traceId := draw.traceId
            row := TraceTables.traceRow texts (s.request query k) found draw
            hits := found.scored.map
              (TraceTables.traceHit texts s.tables (s.request query k) found) })
  else (s.traced, none)

def search (s : TracedStore F) (query : Tables.SearchQuery F) (dim k : Nat) (order : HashOrder)
    (draw : TraceDraw) :
    Except MenteError (List (MemoryId × F)) × Option (Recorded F) × TracedStore F :=
  match searchFindings rankers order s.config s.tables dim query k with
  | Except.error e => (Except.error e, none, s)
  | Except.ok none => (Except.ok [], none, s)
  | Except.ok (some found) =>
      (Except.ok found.scored, (record texts s query k draw found).2,
        { s with traced := (record texts s query k draw found).1 })

/-- A step, with the answer of a search and the trace it left. -/
def step (s : TracedStore F) :
    TracedOp F ->
      Option (Except MenteError (List (MemoryId × F))) × Option (Recorded F) × TracedStore F
  | TracedOp.search query dim k order draw =>
      let (answer, recorded, s') := search texts rankers s query dim k order draw
      (some answer, recorded, s')
  | TracedOp.setRetrievalTracing enabled => (none, none, { s with traceRetrieval := enabled })
  | TracedOp.setRetrievalConfig config limit =>
      (none, none, { s with config := config, traceRetentionLimit := limit })
  | TracedOp.write change => (none, none, { s with tables := change s.tables })

/-- The answers of a run with the traces they left, and the database after it. -/
def run (s : TracedStore F) :
    List (TracedOp F) ->
      List (Except MenteError (List (MemoryId × F)) × Option (Recorded F)) × TracedStore F
  | [] => ([], s)
  | op :: rest =>
      let out := step texts rankers s op
      let later := run out.2.2 rest
      (out.1.toList.map (fun answer => (answer, out.2.1)) ++ later.1, later.2)

end TracedStore

end Searches

/-!
## What is written
-/

namespace TraceTables

theorem checkUsize_ok {n : Nat} {s s' : TraceTables F} (h : checkUsize n s = Except.ok s') :
    s' = s := by
  unfold checkUsize usizeToI64 at h
  split at h
  · cases h
    rfl
  · cases h

theorem checks_ok {ns : List Nat} {s s' : TraceTables F}
    (h : Atomic.forEach ns checkUsize s = Except.ok s') : s' = s := by
  have hkeeps : Atomic.Keeps (fun mid : TraceTables F => mid = s)
      (Atomic.forEach ns checkUsize) := by
    apply Atomic.Keeps.forEach
    intro n _ mid mid' hmid hrun
    rw [checkUsize_ok hrun, hmid]
  exact hkeeps s s' rfl h

theorem entries_insert_of_not_contains {κ ν : Type} [DecidableEq κ] {t : Assoc κ ν} {k : κ}
    (v : ν) (h : ¬ t.contains k = true) : (t.insert k v).entries = t.entries ++ [(k, v)] :=
  Assoc.entries_upsert_of_not_contains _ (Bool.eq_false_of_not_eq_true h)

theorem insertTraceOn_ok {traceId : String} {row : TraceRow} {s s' : TraceTables F}
    (h : insertTraceOn traceId row s = Except.ok s') :
    s'.traces.entries = s.traces.entries ++ [(traceId, row)] ∧ s'.hits = s.hits := by
  unfold insertTraceOn at h
  split at h
  · cases h
  · rename_i hnew
    cases h
    exact ⟨entries_insert_of_not_contains row hnew, rfl⟩

theorem insertHits_ok {traceId : String} {xs : List (HitRow F × Nat)} {s s' : TraceTables F}
    (h : Atomic.forEach xs (fun hit =>
      Atomic.andThen (checkUsize hit.2) (insertHitOn traceId hit.2 hit.1)) s = Except.ok s') :
    s'.traces = s.traces ∧
      s'.hits.entries = s.hits.entries ++ xs.map (fun hit => ((traceId, hit.2), hit.1)) := by
  induction xs generalizing s with
  | nil =>
      cases h
      exact ⟨rfl, (List.append_nil _).symm⟩
  | cons x rest ih =>
      rcases Atomic.andThen_eq_ok.mp h with ⟨mid, hmid, hend⟩
      rcases Atomic.andThen_eq_ok.mp hmid with ⟨checked, hchecked, hinsert⟩
      rw [checkUsize_ok hchecked] at hinsert
      unfold insertHitOn at hinsert
      split at hinsert
      · cases hinsert
      · rename_i hnew
        split at hinsert
        · cases hinsert
        · cases hinsert
          rcases ih hend with ⟨htraces, hhits⟩
          refine ⟨htraces, ?_⟩
          rw [hhits]
          show (s.hits.insert (traceId, x.2) x.1).entries ++ _ = _
          rw [entries_insert_of_not_contains x.1 hnew, List.append_assoc]
          rfl

theorem foldl_deleteTrace (ids : List String) (s : TraceTables F) :
    (ids.foldl deleteTrace s).traces.entries =
        s.traces.entries.filter (fun e => decide (e.1 ∉ ids)) ∧
      (ids.foldl deleteTrace s).hits.entries =
        s.hits.entries.filter (fun e => decide (e.1.1 ∉ ids)) := by
  induction ids generalizing s with
  | nil => simp
  | cons id rest ih =>
      rw [List.foldl_cons, (ih _).1, (ih _).2]
      constructor
      · show (s.traces.entries.filter _).filter _ = _
        rw [List.filter_filter]
        refine List.filter_congr (fun e _ => ?_)
        simp only [List.mem_cons, not_or, Bool.decide_and, decide_not]
        exact Bool.and_comm _ _
      · show (s.hits.entries.filter _).filter _ = _
        rw [List.filter_filter]
        refine List.filter_congr (fun e _ => ?_)
        simp only [List.mem_cons, not_or, Bool.decide_and, decide_not]
        exact Bool.and_comm _ _

/-- The rows of a trace that was recorded. -/
def hitRows (r : Recorded F) : List ((String × Nat) × HitRow F) :=
  (r.hits.zipIdx 1).map (fun hit => ((r.traceId, hit.2), hit.1))

/-- A trace that is recorded is appended, and then the stale ones go. -/
def Grows (order : HashOrder) (keep : Nat) (r : Recorded F) (s s' : TraceTables F) : Prop :=
  exists mid : TraceTables F,
    mid.traces.entries = s.traces.entries ++ [(r.traceId, r.row)] ∧
      mid.hits.entries = s.hits.entries ++ hitRows r ∧
      s' = (staleTraces order keep mid).foldl deleteTrace mid

theorem recordRetrievalTrace_ok {texts : TraceTexts F} {t : Tables F} {request : TraceRequest F}
    {found : Findings F} {draw : TraceDraw} {s s' : TraceTables F}
    (h : recordRetrievalTrace texts t request found draw s = Except.ok s') :
    Grows draw.order request.retention
      { traceId := draw.traceId
        row := traceRow texts request found draw
        hits := found.scored.map (traceHit texts t request found) } s s' := by
  rcases Atomic.andThen_eq_ok.mp h with ⟨purged, h, hcommit⟩
  rcases Atomic.andThen_eq_ok.mp h with ⟨checked, h, hpurge⟩
  rcases Atomic.andThen_eq_ok.mp h with ⟨full, h, hchecked⟩
  rcases Atomic.andThen_eq_ok.mp h with ⟨opened, h, hfull⟩
  rcases Atomic.andThen_eq_ok.mp h with ⟨first, hfirst, hopened⟩
  rw [checks_ok hfirst] at hopened
  rw [checkUsize_ok hchecked] at hpurge
  rcases insertTraceOn_ok hopened with ⟨htraces, hhits⟩
  rcases insertHits_ok hfull with ⟨htraces', hhits'⟩
  unfold commit at hcommit
  split at hcommit
  · cases hcommit
  · cases hcommit
    cases hpurge
    refine ⟨full, ?_, ?_, rfl⟩
    · rw [htraces', htraces]
    · rw [hhits', hhits]
      rfl

/-!
## What is kept
-/

/-- A trace with its age, as the database compares it. -/
def aged (e : String × TraceRow) : String × Int := (e.1, e.2.createdAt.toInt64.toInt)

def recordedAge (r : Recorded F) : String × Int := aged (r.traceId, r.row)

/-- The newest of the recorded traces are stored, ties in any order. -/
def KeepsNewest (keep : Nat) (log : List (Recorded F)) (s : TraceTables F) : Prop :=
  exists top, TopOf keep (log.map recordedAge) top ∧ (s.traces.entries.map aged).Perm top

/-- What is stored was recorded, and with each trace all its hits. -/
structure Accounts (log : List (Recorded F)) (s : TraceTables F) : Prop where
  traces : s.traces.entries.Sublist (log.map (fun r => (r.traceId, r.row)))
  hits : s.hits.entries =
    (log.filter (fun r => s.traces.contains r.traceId)).flatMap hitRows

theorem pairwise_newestFirst (rows : List (String × TraceRow)) :
    (orderBy newestFirst rows).Pairwise (fun a b => (aged b).2 <= (aged a).2) := by
  have horders : OrdersBy (fun e : String × TraceRow => OrderDual.toDual (aged e).2)
      newestFirst := by
    intro a b
    unfold newestFirst sqlLe
    rw [decide_eq_true_eq, Int64.le_iff_toInt_le]
    exact Iff.rfl
  exact horders.pairwise rows

theorem contains_iff_mem_map {κ ν : Type} [DecidableEq κ] {t : Assoc κ ν} {k : κ} :
    t.contains k = true <-> exists e, e ∈ t.entries ∧ e.1 = k := by
  rw [Assoc.contains_iff_mem_keys]
  exact List.mem_map

/-- Keys of the first rows are not among the keys of the others. -/
theorem filter_not_mem_drop {κ ν : Type} [DecidableEq κ] {rows : List (κ × ν)}
    (hnodup : (rows.map Prod.fst).Nodup) (n : Nat) :
    rows.filter (fun e => decide (e.1 ∉ (rows.drop n).map Prod.fst)) = rows.take n := by
  have hsplit : (rows.take n ++ rows.drop n).filter
      (fun e => decide (e.1 ∉ (rows.drop n).map Prod.fst)) = rows.take n := by
    rw [List.filter_append]
    have hkeys := hnodup
    rw [← List.take_append_drop n rows, List.map_append] at hkeys
    have hfirst : (rows.take n).filter
        (fun e => decide (e.1 ∉ (rows.drop n).map Prod.fst)) = rows.take n := by
      rw [List.filter_eq_self]
      intro e he
      refine decide_eq_true (fun hdropped => ?_)
      exact List.disjoint_of_nodup_append hkeys (List.mem_map_of_mem he) hdropped
    have hlast : (rows.drop n).filter
        (fun e => decide (e.1 ∉ (rows.drop n).map Prod.fst)) = [] := by
      rw [List.filter_eq_nil_iff]
      intro e he hkept
      exact of_decide_eq_true hkept (List.mem_map_of_mem he)
    rw [hfirst, hlast, List.append_nil]
  rw [List.take_append_drop] at hsplit
  exact hsplit

theorem Grows.keepsNewest {order : HashOrder} {keep : Nat} {r : Recorded F}
    {s s' : TraceTables F} (h : Grows order keep r s s') {log : List (Recorded F)}
    (hlog : KeepsNewest keep log s) : KeepsNewest keep (log ++ [r]) s' := by
  rcases h with ⟨mid, htraces, _, rfl⟩
  rcases hlog with ⟨top, htop, hperm⟩
  generalize hsorted : orderBy newestFirst (order.order mid.traces.entries) = sorted
  have hsame : sorted.Perm mid.traces.entries := by
    rw [← hsorted]
    exact (List.perm_insertionSort _ _).trans (order.perm _)
  have hkept : ((staleTraces order keep mid).foldl deleteTrace mid).traces.entries.Perm
      (sorted.take keep) := by
    rw [(foldl_deleteTrace _ mid).1]
    unfold staleTraces
    rw [hsorted, ← filter_not_mem_drop ((hsame.map Prod.fst).nodup_iff.mpr mid.traces.nodup) keep]
    exact (hsame.filter _).symm
  refine ⟨(sorted.take keep).map aged, ?_, hkept.map aged⟩
  rw [List.map_append, List.map_singleton]
  refine htop.push ?_
  have hrows : (sorted.map aged).Perm (top ++ [recordedAge r]) := by
    refine (hsame.map aged).trans ?_
    rw [htraces, List.map_append]
    exact hperm.append_right _
  refine ⟨sorted.map aged, hrows, ?_, List.map_take⟩
  rw [← hsorted]
  exact List.pairwise_map.mpr (pairwise_newestFirst _)

theorem trace_of_mem_hitRows {r : Recorded F} {e : (String × Nat) × HitRow F}
    (h : e ∈ hitRows r) : e.1.1 = r.traceId := by
  rcases List.mem_map.mp h with ⟨hit, _, rfl⟩
  rfl

theorem filter_flatMap_hitRows (p : String -> Bool) (log : List (Recorded F)) :
    (log.flatMap hitRows).filter (fun e => p e.1.1) =
      (log.filter (fun r => p r.traceId)).flatMap hitRows := by
  induction log with
  | nil => rfl
  | cons r rest ih =>
      rw [List.flatMap_cons, List.filter_append, ih]
      by_cases hp : p r.traceId = true
      · have hall : (hitRows r).filter (fun e => p e.1.1) = hitRows r := by
          rw [List.filter_eq_self]
          intro e he
          rw [trace_of_mem_hitRows he]
          exact hp
        rw [hall, List.filter_cons_of_pos (p := fun r : Recorded F => p r.traceId) hp,
          List.flatMap_cons]
      · have hnone : (hitRows r).filter (fun e => p e.1.1) = [] := by
          rw [List.filter_eq_nil_iff]
          intro e he
          rw [trace_of_mem_hitRows he]
          exact hp
        rw [hnone, List.nil_append,
          List.filter_cons_of_neg (p := fun r : Recorded F => p r.traceId) hp]

theorem Grows.accounts {order : HashOrder} {keep : Nat} {r : Recorded F}
    {s s' : TraceTables F} (h : Grows order keep r s s') {log : List (Recorded F)}
    (hlog : Accounts log s) (hnew : r.traceId ∉ log.map Recorded.traceId) :
    Accounts (log ++ [r]) s' := by
  rcases h with ⟨mid, htraces, hhits, rfl⟩
  generalize staleTraces order keep mid = stale
  have hdeleted := foldl_deleteTrace stale mid
  have hkept : forall id, (stale.foldl deleteTrace mid).traces.contains id =
      (decide (id ∉ stale) && mid.traces.contains id) := by
    intro id
    rw [Bool.eq_iff_iff, Bool.and_eq_true, contains_iff_mem_map, contains_iff_mem_map,
      hdeleted.1]
    constructor
    · rintro ⟨e, he, rfl⟩
      rcases List.mem_filter.mp he with ⟨hmem, hfresh⟩
      exact ⟨hfresh, e, hmem, rfl⟩
    · rintro ⟨hfresh, e, hmem, rfl⟩
      exact ⟨e, List.mem_filter.mpr ⟨hmem, hfresh⟩, rfl⟩
  have hopen : (log ++ [r]).filter (fun q => mid.traces.contains q.traceId) =
      log.filter (fun q => s.traces.contains q.traceId) ++ [r] := by
    rw [List.filter_append]
    congr 1
    · refine List.filter_congr (fun q hq => ?_)
      have hne : q.traceId ≠ r.traceId := by
        intro heq
        exact hnew (heq ▸ List.mem_map_of_mem hq)
      rw [Bool.eq_iff_iff, contains_iff_mem_map, contains_iff_mem_map, htraces]
      constructor
      · rintro ⟨e, he, heq⟩
        rcases List.mem_append.mp he with hold | hlast
        · exact ⟨e, hold, heq⟩
        · rw [List.mem_singleton.mp hlast] at heq
          exact absurd heq.symm hne
      · rintro ⟨e, he, heq⟩
        exact ⟨e, List.mem_append_left _ he, heq⟩
    · rw [List.filter_eq_self]
      intro q hq
      rw [List.mem_singleton.mp hq, contains_iff_mem_map, htraces]
      exact ⟨(r.traceId, r.row), List.mem_append_right _ (List.mem_singleton_self _), rfl⟩
  constructor
  · rw [hdeleted.1, htraces, List.map_append]
    exact List.filter_sublist.trans (hlog.traces.append_right _)
  · have hrows : s.hits.entries ++ hitRows r =
        ((log ++ [r]).filter (fun q => mid.traces.contains q.traceId)).flatMap hitRows := by
      rw [hopen, hlog.hits, List.flatMap_append, List.flatMap_singleton]
    rw [hdeleted.2, hhits, hrows, filter_flatMap_hitRows (fun id => decide (id ∉ stale)),
      List.filter_filter]
    simp only [hkept]

/-- The hits of a stored trace are read as they were recorded, with ranks counted from one. -/
theorem Accounts.retrievalTraceHits {log : List (Recorded F)} {s : TraceTables F}
    (h : Accounts log s) (hnodup : (log.map Recorded.traceId).Nodup) {r : Recorded F}
    (hr : r ∈ log) (hstored : s.traces.contains r.traceId = true) :
    s.retrievalTraceHits r.traceId = (r.hits.zipIdx 1).map (fun hit => (hit.2, hit.1)) := by
  have hrows : s.hits.entries.filter (fun e => decide (e.1.1 = r.traceId)) = hitRows r := by
    rw [h.hits]
    refine filter_flatMap_eq (hnodup.sublist (List.filter_sublist.map _)) ?_
      (List.mem_filter.mpr ⟨hr, hstored⟩)
    intro q _ e he
    exact trace_of_mem_hitRows he
  unfold TraceTables.retrievalTraceHits
  rw [hrows]
  have hlist : (hitRows r).map (fun e => (e.1.2, e.2)) =
      (r.hits.zipIdx 1).map (fun hit => (hit.2, hit.1)) := by
    unfold hitRows
    rw [List.map_map]
    rfl
  rw [hlist]
  -- the ranks ascend already
  have hsorted : ((r.hits.zipIdx 1).map (fun hit => (hit.2, hit.1))).Pairwise
      (fun a b : Nat × HitRow F => decide (a.1 <= b.1) = true) := by
    have hranks : ((r.hits.zipIdx 1).map Prod.snd).Pairwise (fun a b => a <= b) := by
      rw [List.zipIdx_map_snd]
      exact List.pairwise_le_range'
    exact List.pairwise_map.mpr
      ((List.pairwise_map.mp hranks).imp (fun hab => decide_eq_true hab))
  exact List.Pairwise.insertionSort_eq hsorted

/-!
## What a hit says
-/

/-- The rank is the place in the list, and there is none for what is not in the list. -/
def RankedIn (hits : List MemoryId) (id : MemoryId) : Option Nat -> Prop
  | some rank => 1 <= rank ∧ hits[rank - 1]? = some id
  | none => id ∉ hits

theorem rankedIn_rankOf (hits : List MemoryId) (id : MemoryId) :
    RankedIn hits id (rankOf hits id) := by
  cases hrank : rankOf hits id with
  | none =>
      intro hmem
      have hkey : id ∈ (hits.zipIdx.map (fun hit => (hit.1, hit.2 + 1))).map Prod.fst := by
        rw [List.map_map]
        have hfst : hits.zipIdx.map Prod.fst = hits := List.zipIdx_map_fst 0 hits
        rw [← hfst] at hmem
        exact hmem
      have hcontains := (Assoc.contains_foldl_insert_rows
        (hits.zipIdx.map (fun hit => (hit.1, hit.2 + 1))) Assoc.empty id).mpr (Or.inl hkey)
      unfold Assoc.contains at hcontains
      unfold rankOf at hrank
      rw [hrank] at hcontains
      cases hcontains
  | some rank =>
      unfold rankOf at hrank
      rw [Assoc.find?_foldl_insert, Assoc.find?_empty, Option.or_none,
        Option.map_eq_some_iff] at hrank
      rcases hrank with ⟨x, hx, rfl⟩
      have hid : x.1 = id := by simpa using List.find?_some hx
      rcases List.mem_map.mp (List.mem_reverse.mp (List.mem_of_find?_eq_some hx)) with
        ⟨place, hplace, rfl⟩
      have hat := (List.mem_zipIdx_iff_getElem?).mp hplace
      rw [← hid]
      exact ⟨Nat.le_add_left 1 place.2, hat⟩

theorem hitSource_ne {hits hits' : List MemoryId} {id : MemoryId}
    (h : id ∈ hits ∨ id ∈ hits') : hitSource (rankOf hits id) (rankOf hits' id) ≠ "rerank" := by
  have hfirst := rankedIn_rankOf hits id
  have hsecond := rankedIn_rankOf hits' id
  cases hrank : rankOf hits id with
  | some rank =>
      cases rankOf hits' id with
      | some rank' =>
          show "hybrid" ≠ "rerank"
          decide
      | none =>
          show "vector" ≠ "rerank"
          decide
  | none =>
      rw [hrank] at hfirst
      cases hrank' : rankOf hits' id with
      | some rank =>
          show "keyword" ≠ "rerank"
          decide
      | none =>
          rw [hrank'] at hsecond
          exact absurd h (not_or.mpr ⟨hfirst, hsecond⟩)

end TraceTables

/-!
## Runs
-/

section Runs

variable [Arith F] {texts : TraceTexts F} {rankers : Rankers F}

variable (rankers) in
theorem searchFindings_scored (o : HashOrder) (config : RetrievalConfig F) (t : Tables F)
    (dim : Nat) (query : Tables.SearchQuery F) (k : Nat) :
    (searchFindings rankers o config t dim query k).map (fun found =>
      (found.map Findings.scored).getD []) =
      t.hybridSearchWithQueryMode rankers o config dim query.embedding query.text query.tags
        query.tagsOr query.timeRange k := by
  unfold searchFindings Tables.hybridSearchWithQueryMode
  by_cases hempty : k = 0 ∨ query.embedding = []
  · rw [if_pos hempty, if_pos hempty]
    rfl
  rw [if_neg hempty, if_neg hempty]
  cases t.candidateSet rankers.limits query.tags query.tagsOr query.timeRange with
  | error e => rfl
  | ok candidates =>
      show Except.map _ (if candidates = some [] then _ else _) =
        if candidates = some [] then _ else _
      split
      · rfl
      · cases t.vectorHits rankers o dim query.embedding candidates (fetchK config k) <;> rfl

/-- Every result was found by one of the two rankers. -/
theorem found_of_searchFindings {o : HashOrder} {config : RetrievalConfig F} {t : Tables F}
    {dim : Nat} {query : Tables.SearchQuery F} {k : Nat} {found : Findings F}
    (h : searchFindings rankers o config t dim query k = Except.ok (some found))
    {hit : MemoryId × F} (hhit : hit ∈ found.scored) :
    hit.1 ∈ found.vectorHits ∨ hit.1 ∈ found.bm25Hits := by
  unfold searchFindings at h
  split at h
  · cases h
  · rcases except_bind_ok h with ⟨candidates, _, h⟩
    split at h
    · cases h
      cases hhit
    · rcases except_bind_ok h with ⟨vector, _, h⟩
      cases h
      exact (Tables.sources_of_mem_finishSearch hhit).1

/-- A search of a run, with the database as it was then. -/
structure TracedSearch (F : Type) where
  tables : Tables F
  config : RetrievalConfig F
  query : Tables.SearchQuery F
  dim : Nat
  k : Nat
  order : HashOrder
  traceId : String

def TracedSearch.findings (rankers : Rankers F) (a : TracedSearch F) :
    Except MenteError (Option (Findings F)) :=
  searchFindings rankers a.order a.config a.tables a.dim a.query a.k

/-- The answer when nothing is traced. -/
def TracedSearch.answer (rankers : Rankers F) (a : TracedSearch F) :
    Except MenteError (List (MemoryId × F)) :=
  a.tables.hybridSearchWithQueryMode rankers a.order a.config a.dim a.query.embedding
    a.query.text a.query.tags a.query.tagsOr a.query.timeRange a.k

omit [Arith F] in
/-- The searches and the tables of a run, which do not depend on the traces. -/
def searchesOf (t : Tables F) (config : RetrievalConfig F) :
    List (TracedOp F) -> List (TracedSearch F) × Tables F
  | [] => ([], t)
  | TracedOp.search query dim k o draw :: rest =>
      let (searches, t') := searchesOf t config rest
      ({ tables := t, config := config, query := query, dim := dim, k := k, order := o,
         traceId := draw.traceId } :: searches, t')
  | TracedOp.setRetrievalTracing _ :: rest => searchesOf t config rest
  | TracedOp.setRetrievalConfig config' _ :: rest => searchesOf t config' rest
  | TracedOp.write change :: rest => searchesOf (change t) config rest

/-- The trace is that of the search, and says of every hit where the search found it. -/
def Explained (rankers : Rankers F) (a : TracedSearch F) (r : Recorded F) : Prop :=
  exists found,
    a.findings rankers = Except.ok (some found) ∧ a.answer rankers = Except.ok found.scored ∧
      r.traceId = a.traceId ∧ r.row.queryText = a.query.text ∧ r.row.k = a.k ∧
      r.row.resultCount = found.scored.length ∧
      r.hits.map (fun hit => (hit.memoryId, hit.score)) = found.scored ∧
      forall hit, hit ∈ r.hits ->
        TraceTables.RankedIn found.vectorHits hit.memoryId hit.vectorRank ∧
          TraceTables.RankedIn found.bm25Hits hit.memoryId hit.bm25Rank ∧
          hit.source ≠ "rerank"

/-- The search is answered as without traces, and what it left is its trace. -/
def Answered (rankers : Rankers F) (a : TracedSearch F)
    (out : Except MenteError (List (MemoryId × F)) × Option (Recorded F)) : Prop :=
  out.1 = a.answer rankers ∧ forall r, out.2 = some r -> Explained rankers a r

def TracedOp.drawnId? : TracedOp F -> Option String
  | TracedOp.search _ _ _ _ draw => some draw.traceId
  | _ => none

/-- The settings of the run never change how many traces are kept. -/
def TracedOp.Retains (keep : Nat) : TracedOp F -> Prop
  | TracedOp.setRetrievalConfig _ limit => limit = keep
  | _ => True

variable (texts) in
/-- What a search leaves is a trace of it, or nothing. -/
theorem record_cases {s : TracedStore F} {query : Tables.SearchQuery F} {dim k : Nat}
    {o : HashOrder} (draw : TraceDraw) {found : Findings F}
    (hfound : searchFindings rankers o s.config s.tables dim query k =
      Except.ok (some found)) :
    TracedStore.record texts s query k draw found = (s.traced, none) ∨
      exists traced r, TracedStore.record texts s query k draw found = (traced, some r) ∧
        TraceTables.Grows draw.order s.traceRetentionLimit r s.traced traced ∧
        Explained rankers
          { tables := s.tables, config := s.config, query := query, dim := dim, k := k,
            order := o, traceId := draw.traceId } r := by
  unfold TracedStore.record
  split
  · cases hrecord : TraceTables.recordRetrievalTrace texts s.tables (s.request query k) found
      draw s.traced with
    | error e => exact Or.inl rfl
    | ok traced =>
        have hanswer := searchFindings_scored rankers o s.config s.tables dim query k
        rw [hfound] at hanswer
        refine Or.inr ⟨traced, _, rfl, TraceTables.recordRetrievalTrace_ok hrecord,
          found, hfound, hanswer.symm, rfl, rfl, rfl, rfl, ?_, ?_⟩
        · rw [List.map_map]
          exact List.map_id' found.scored
        · intro hit hhit
          rcases List.mem_map.mp hhit with ⟨scored, hscored, rfl⟩
          exact ⟨TraceTables.rankedIn_rankOf _ _, TraceTables.rankedIn_rankOf _ _,
            TraceTables.hitSource_ne (found_of_searchFindings hfound hscored)⟩
  · exact Or.inl rfl

/-- What a run comes to: the answers and the tables are as without traces, every trace is
explained by its own search, and the stored traces are among the recorded ones, with their hits. -/
structure RunAccounts (texts : TraceTexts F) (rankers : Rankers F) (past : List (Recorded F))
    (s : TracedStore F) (ops : List (TracedOp F)) : Prop where
  answers : List.Forall₂ (Answered rankers) (searchesOf s.tables s.config ops).1
    (s.run texts rankers ops).1
  tables : (s.run texts rankers ops).2.tables = (searchesOf s.tables s.config ops).2
  ids : ((s.run texts rankers ops).1.filterMap Prod.snd).map Recorded.traceId |>.Sublist
    (ops.filterMap TracedOp.drawnId?)
  accounts : TraceTables.Accounts
    (past ++ (s.run texts rankers ops).1.filterMap Prod.snd) (s.run texts rankers ops).2.traced
  newest : forall keep, s.traceRetentionLimit = keep ->
    (forall op, op ∈ ops -> TracedOp.Retains keep op) ->
    TraceTables.KeepsNewest keep past s.traced ->
    TraceTables.KeepsNewest keep (past ++ (s.run texts rankers ops).1.filterMap Prod.snd)
      (s.run texts rankers ops).2.traced

variable (texts rankers) in
/-- A search is answered as without traces, and changes nothing but the traces. -/
theorem search_cases (s : TracedStore F) (query : Tables.SearchQuery F) (dim k : Nat)
    (o : HashOrder) (draw : TraceDraw) :
    exists answer traced recorded,
      s.search texts rankers query dim k o draw =
        (answer, recorded, { s with traced := traced }) ∧
      Answered rankers
        { tables := s.tables, config := s.config, query := query, dim := dim, k := k,
          order := o, traceId := draw.traceId } (answer, recorded) ∧
      (recorded = none ∧ traced = s.traced ∨
        exists r, recorded = some r ∧ r.traceId = draw.traceId ∧
          TraceTables.Grows draw.order s.traceRetentionLimit r s.traced traced) := by
  have hanswer := searchFindings_scored rankers o s.config s.tables dim query k
  unfold TracedStore.search
  cases hfound : searchFindings rankers o s.config s.tables dim query k with
  | error e =>
      rw [hfound] at hanswer
      exact ⟨_, s.traced, none, rfl, ⟨hanswer, nofun⟩, Or.inl ⟨rfl, rfl⟩⟩
  | ok findings =>
      rw [hfound] at hanswer
      cases findings with
      | none => exact ⟨_, s.traced, none, rfl, ⟨hanswer, nofun⟩, Or.inl ⟨rfl, rfl⟩⟩
      | some found =>
          dsimp only
          rcases record_cases texts draw hfound with
            hnone | ⟨traced, r, hsome, hgrows, hexplained⟩
          · rw [hnone]
            exact ⟨_, s.traced, none, rfl, ⟨hanswer, nofun⟩, Or.inl ⟨rfl, rfl⟩⟩
          · rw [hsome]
            refine ⟨_, traced, some r, rfl, ⟨hanswer, ?_⟩, Or.inr ⟨r, rfl, ?_, hgrows⟩⟩
            · intro r' hr'
              cases hr'
              exact hexplained
            · rcases hexplained with ⟨_, _, _, hid, _⟩
              exact hid

theorem run_cons (s : TracedStore F) (op : TracedOp F) (rest : List (TracedOp F)) :
    s.run texts rankers (op :: rest) =
      ((s.step texts rankers op).1.toList.map
          (fun answer => (answer, (s.step texts rankers op).2.1)) ++
        ((s.step texts rankers op).2.2.run texts rankers rest).1,
        ((s.step texts rankers op).2.2.run texts rankers rest).2) := rfl

theorem run_search {s s' : TracedStore F} {query : Tables.SearchQuery F} {dim k : Nat}
    {o : HashOrder} {draw : TraceDraw}
    {answer : Except MenteError (List (MemoryId × F))} {recorded : Option (Recorded F)}
    (h : s.search texts rankers query dim k o draw = (answer, recorded, s'))
    (rest : List (TracedOp F)) :
    s.run texts rankers (TracedOp.search query dim k o draw :: rest) =
      ((answer, recorded) :: (s'.run texts rankers rest).1, (s'.run texts rankers rest).2) := by
  have hstep : s.step texts rankers (TracedOp.search query dim k o draw) =
      (some answer, recorded, s') := by
    show (some (s.search texts rankers query dim k o draw).1,
      (s.search texts rankers query dim k o draw).2) = _
    rw [h]
  rw [run_cons, hstep]
  rfl

theorem runAccounts_nil {past : List (Recorded F)} {s : TracedStore F}
    (hpast : TraceTables.Accounts past s.traced) :
    RunAccounts texts rankers past s [] where
  answers := List.Forall₂.nil
  tables := rfl
  ids := List.Sublist.slnil
  accounts := by
    show TraceTables.Accounts (past ++ []) s.traced
    rw [List.append_nil]
    exact hpast
  newest keep _ _ h := by
    show TraceTables.KeepsNewest keep (past ++ []) s.traced
    rw [List.append_nil]
    exact h

/-- A setting or a write leaves the traces. -/
theorem RunAccounts.cons_setting {past : List (Recorded F)} {s s' : TracedStore F}
    {op : TracedOp F} {rest : List (TracedOp F)} (h : RunAccounts texts rankers past s' rest)
    (hstep : s.step texts rankers op = (none, none, s')) (htraced : s'.traced = s.traced)
    (hsearches : searchesOf s.tables s.config (op :: rest) = searchesOf s'.tables s'.config rest)
    (hdrawn : op.drawnId? = none)
    (hlimit : forall keep, s.traceRetentionLimit = keep -> TracedOp.Retains keep op ->
      s'.traceRetentionLimit = keep) :
    RunAccounts texts rankers past s (op :: rest) := by
  have hrun : s.run texts rankers (op :: rest) = s'.run texts rankers rest := by
    rw [run_cons, hstep]
    rfl
  constructor
  · rw [hrun, hsearches]
    exact h.answers
  · rw [hrun, hsearches]
    exact h.tables
  · rw [hrun, List.filterMap_cons_none hdrawn]
    exact h.ids
  · rw [hrun]
    exact h.accounts
  · rw [hrun]
    intro keep hkeep hops hnow
    exact h.newest keep (hlimit keep hkeep (hops op List.mem_cons_self))
      (fun later hlater => hops later (List.mem_cons_of_mem op hlater)) (htraced ▸ hnow)

section Search

variable {past : List (Recorded F)} {s : TracedStore F} {query : Tables.SearchQuery F}
variable {dim k : Nat} {o : HashOrder} {draw : TraceDraw} {traced : TraceTables F}
variable {answer : Except MenteError (List (MemoryId × F))} {rest : List (TracedOp F)}

/-- A search without a trace. -/
theorem RunAccounts.cons_untraced (h : RunAccounts texts rankers past s rest)
    (hsearch : s.search texts rankers query dim k o draw = (answer, none, s))
    (hanswered : Answered rankers
      { tables := s.tables, config := s.config, query := query, dim := dim, k := k, order := o,
        traceId := draw.traceId } (answer, none)) :
    RunAccounts texts rankers past s (TracedOp.search query dim k o draw :: rest) := by
  have hrun := run_search hsearch rest
  constructor
  · rw [hrun]
    exact List.Forall₂.cons hanswered h.answers
  · rw [hrun]
    exact h.tables
  · rw [hrun]
    exact h.ids.trans (List.sublist_cons_self _ _)
  · rw [hrun]
    exact h.accounts
  · rw [hrun]
    intro keep hkeep hops hnow
    exact h.newest keep hkeep (fun op hop => hops op (List.mem_cons_of_mem _ hop)) hnow

/-- A search with a trace, which later searches find among the recorded ones. -/
theorem RunAccounts.cons_traced {r : Recorded F}
    (h : RunAccounts texts rankers (past ++ [r]) { s with traced := traced } rest)
    (hsearch : s.search texts rankers query dim k o draw =
      (answer, some r, { s with traced := traced }))
    (hanswered : Answered rankers
      { tables := s.tables, config := s.config, query := query, dim := dim, k := k, order := o,
        traceId := draw.traceId } (answer, some r))
    (hid : r.traceId = draw.traceId)
    (hnewest : TraceTables.KeepsNewest s.traceRetentionLimit past s.traced ->
      TraceTables.KeepsNewest s.traceRetentionLimit (past ++ [r]) traced) :
    RunAccounts texts rankers past s (TracedOp.search query dim k o draw :: rest) := by
  have hrun := run_search hsearch rest
  constructor
  · rw [hrun]
    exact List.Forall₂.cons hanswered h.answers
  · rw [hrun]
    exact h.tables
  · rw [hrun]
    show (r.traceId :: _).Sublist (draw.traceId :: _)
    rw [hid]
    exact h.ids.cons_cons _
  · rw [hrun]
    have haccounts := h.accounts
    rw [List.append_assoc] at haccounts
    exact haccounts
  · rw [hrun]
    intro keep hkeep hops hnow
    subst hkeep
    have hlater := h.newest s.traceRetentionLimit rfl
      (fun op hop => hops op (List.mem_cons_of_mem _ hop)) (hnewest hnow)
    rw [List.append_assoc] at hlater
    exact hlater

end Search

theorem runAccounts {past : List (Recorded F)} {s : TracedStore F} {ops : List (TracedOp F)}
    (hpast : TraceTables.Accounts past s.traced)
    (hfresh : (past.map Recorded.traceId ++ ops.filterMap TracedOp.drawnId?).Nodup) :
    RunAccounts texts rankers past s ops := by
  induction ops generalizing s past with
  | nil => exact runAccounts_nil hpast
  | cons op rest ih =>
      cases op with
      | setRetrievalTracing enabled =>
          have hrest := ih (s := { s with traceRetrieval := enabled }) hpast hfresh
          exact hrest.cons_setting rfl rfl rfl rfl (fun _ hkeep _ => hkeep)
      | setRetrievalConfig config limit =>
          have hrest := ih (s := { s with config := config, traceRetentionLimit := limit })
            hpast hfresh
          exact hrest.cons_setting rfl rfl rfl rfl (fun _ _ hretains => hretains)
      | write change =>
          have hrest := ih (s := { s with tables := change s.tables }) hpast hfresh
          exact hrest.cons_setting rfl rfl rfl rfl (fun _ hkeep _ => hkeep)
      | search query dim k o draw =>
          rcases search_cases texts rankers s query dim k o draw with
            ⟨answer, traced, recorded, hstep, hanswered, hcases⟩
          change (past.map Recorded.traceId ++
            draw.traceId :: rest.filterMap TracedOp.drawnId?).Nodup at hfresh
          rcases hcases with ⟨rfl, rfl⟩ | ⟨r, rfl, hid, hgrows⟩
          · have hrest := ih (s := s) hpast
              (hfresh.sublist ((List.sublist_cons_self _ _).append_left _))
            exact hrest.cons_untraced hstep hanswered
          · have hnew : r.traceId ∉ past.map Recorded.traceId := by
              rw [hid]
              intro hmem
              exact List.disjoint_of_nodup_append hfresh hmem List.mem_cons_self
            have hids : ((past ++ [r]).map Recorded.traceId ++
                rest.filterMap TracedOp.drawnId?).Nodup := by
              rw [List.map_append, List.map_singleton, hid, List.append_assoc]
              exact hfresh
            have hrest := ih (s := { s with traced := traced }) (hgrows.accounts hpast hnew) hids
            exact hrest.cons_traced hstep hanswered hid hgrows.keepsNewest

/-- Over any sequence of searches, settings and writes, with any traces that cannot be written:
searches are answered as without traces and change no other table; the trace of a search says
what it returned and where each hit was found; the stored traces are among those that were
recorded, the newest of them as long as the limit stays, and each of them with exactly its hits
in their order. -/
theorem traces_account_for_searches (s : TracedStore F) (hempty : s.traced = TraceTables.empty)
    (ops : List (TracedOp F)) (hfresh : (ops.filterMap TracedOp.drawnId?).Nodup) :
    let out := s.run texts rankers ops
    let log := out.1.filterMap Prod.snd
    List.Forall₂ (Answered rankers) (searchesOf s.tables s.config ops).1 out.1 ∧
      out.2.tables = (searchesOf s.tables s.config ops).2 ∧
      out.2.traced.traces.entries.Sublist (log.map (fun r => (r.traceId, r.row))) ∧
      (forall r, r ∈ log -> out.2.traced.traces.contains r.traceId = true ->
        out.2.traced.retrievalTraceHits r.traceId =
          (r.hits.zipIdx 1).map (fun hit => (hit.2, hit.1))) ∧
      (forall e, e ∈ out.2.traced.hits.entries ->
        out.2.traced.traces.contains e.1.1 = true) ∧
      forall keep, s.traceRetentionLimit = keep ->
        (forall op, op ∈ ops -> TracedOp.Retains keep op) ->
        TraceTables.KeepsNewest keep log out.2.traced := by
  intro out log
  have hstart : TraceTables.Accounts [] s.traced := by
    rw [hempty]
    exact ⟨List.Sublist.slnil, rfl⟩
  have hrun : RunAccounts texts rankers [] s ops := runAccounts hstart hfresh
  have haccounts : TraceTables.Accounts log out.2.traced := hrun.accounts
  refine ⟨hrun.answers, hrun.tables, haccounts.traces, ?_, ?_, ?_⟩
  · intro r hr hstored
    exact haccounts.retrievalTraceHits (hfresh.sublist hrun.ids) hr hstored
  · intro e he
    rw [haccounts.hits] at he
    rcases List.mem_flatMap.mp he with ⟨r, hr, hrow⟩
    rw [TraceTables.trace_of_mem_hitRows hrow]
    exact (List.mem_filter.mp hr).2
  · intro keep hlimit hops
    refine hrun.newest keep hlimit hops ?_
    rw [hempty]
    exact ⟨[], ⟨[], List.Perm.nil, List.Pairwise.nil, List.take_nil.symm⟩, List.Perm.nil⟩

end Runs

/-- Texts that say nothing. -/
def briefTexts : TraceTexts Rat where
  config _ _ := "\x7b\x7d"
  tags _ := "[]"
  stages _ := "\x7b\x7d"
  explanation _ := "\x7b\x7d"

/-- One trace is kept. -/
def tracedPlane : TracedStore Rat where
  tables := Tables.planeTables
  config := RetrievalConfig.default
  traceRetentionLimit := 1
  traceRetrieval := true
  traced := TraceTables.empty

def searchRight (traceId : String) (now : Timestamp) : TracedOp Rat :=
  TracedOp.search
    { embedding := [1, 0], text := none, tags := none, tagsOr := false, timeRange := none } 2 1
    HashOrder.insertion
    { traceId := traceId, now := now, order := HashOrder.insertion, refused := false }

def searchTwice : List (TracedOp Rat) := [searchRight "first" 5, searchRight "second" 6]

theorem traces_account_for_searches_twice :
    ((tracedPlane.run briefTexts Tables.l2Rankers searchTwice).1.filterMap Prod.snd).length = 2 ∧
      TraceTables.KeepsNewest 1
        ((tracedPlane.run briefTexts Tables.l2Rankers searchTwice).1.filterMap Prod.snd)
        (tracedPlane.run briefTexts Tables.l2Rankers searchTwice).2.traced := by
  have hretains : forall op, op ∈ searchTwice -> TracedOp.Retains 1 op := by
    intro op hop
    rcases List.mem_cons.mp hop with rfl | hop
    · trivial
    · rw [List.mem_singleton.mp hop]
      trivial
  exact ⟨by decide +kernel,
    (traces_account_for_searches tracedPlane rfl searchTwice (by decide)).2.2.2.2.2 1 rfl
      hretains⟩

end Sqlite
end MenteDb
