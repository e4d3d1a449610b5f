import ChangeImpact.Proofs.StoredMaps
import Mathlib.Logic.Relation

/-!
# Maps asked for while scans are under way

Callers that share a cache may wait for the same scan, and maps may be dropped and files changed
while it reads. A scan under way is not dropped with the stored map: it answers everyone who asks
until it ends, and its map is stored then. So a root that is dropped has only maps of later scans
from then on, exactly if no scan of it that has started is still under way.
-/

namespace ChangeImpact

/-- The stamp of the scan that an answer gives or waits for. -/
def CacheAnswer.stamp : CacheAnswer → ℕ
  | ready map => map.stamp
  | waiting stamp => stamp

/-- A call for the map of a root, and how far it is answered. -/
structure CacheCall where
  root : Root
  answer : CacheAnswer

/-- A cache with several callers. -/
structure SharedCache where
  cache : MapCache
  /-- The files at present. -/
  tree : Directory
  /-- The scans that have started to read. -/
  started : List ℕ := []
  /-- The maps of the scans that have read everything. -/
  finished : List StampedMap := []
  /-- All calls so far, in the order in which they began. -/
  calls : List CacheCall := []

namespace SharedCache

/-- A new cache without callers. -/
def new (config : ScanConfig) (tree : Directory) : SharedCache :=
  { cache := { config := config }, tree := tree }

/-- The map with which a scan ended. -/
def result? (shared : SharedCache) (stamp : ℕ) : Option StampedMap :=
  shared.finished.find? fun found => found.stamp = stamp

/-- A call begins. -/
def call (shared : SharedCache) (root : Root) : SharedCache :=
  { shared with
    cache := (shared.cache.ask root).2
    calls := shared.calls ++ [⟨root, (shared.cache.ask root).1⟩] }

/-- A root is dropped. -/
def invalidate (shared : SharedCache) (root : Root) : SharedCache :=
  { shared with cache := shared.cache.invalidate root }

/-- The caller who started the scan of a root gives up, as after a failure. -/
def abandon (shared : SharedCache) (root : Root) : SharedCache :=
  { shared with
    cache := { shared.cache with
      pending := shared.cache.pending.filter fun entry => entry.1 != root.key } }

/-- What can happen between two moments at which a caller or a scan waits. The map of a scan is
stored when the caller who started the scan goes on; the others who wait for it go on by themselves.
As files may change while a scan reads them, it may end with any map. -/
inductive Step (shared : SharedCache) : SharedCache → Prop
  | call (root : Root) : Step shared (shared.call root)
  | start {entry : List String × ℕ} (hpending : entry ∈ shared.cache.pending)
    (hnew : entry.2 ∉ shared.started) :
    Step shared { shared with started := entry.2 :: shared.started }
  | finish {key : List String} {found : StampedMap}
    (hpending : (key, found.stamp) ∈ shared.cache.pending) (hstarted : found.stamp ∈ shared.started)
    (hnew : shared.result? found.stamp = none) :
    Step shared { shared with finished := found :: shared.finished }
  | store {root : Root} {stamp : ℕ} {found : StampedMap}
    (hpending : shared.cache.pending.lookup root.key = some stamp)
    (hresult : shared.result? stamp = some found) :
    Step shared { shared with cache := shared.cache.complete root found }
  | resume {n stamp : ℕ} {root : Root} {found : StampedMap}
    (hcall : shared.calls[n]? = some ⟨root, .waiting stamp⟩)
    (hresult : shared.result? stamp = some found) :
    Step shared { shared with calls := shared.calls.set n ⟨root, .ready found⟩ }
  | abandon (root : Root) : Step shared (shared.abandon root)
  | invalidate (root : Root) : Step shared (shared.invalidate root)
  | invalidateAll : Step shared { shared with cache := shared.cache.invalidateAll }
  | edit (tree : Directory) : Step shared { shared with tree := tree }

/-- Any number of steps, of any callers and scans. -/
abbrev Run : SharedCache → SharedCache → Prop := Relation.ReflTransGen Step

/-- Since a moment, no call for a root that began later is answered by a scan that had started
before, and no map of such a scan is stored. -/
structure IsFreshSince (before : SharedCache) (root : Root) (after : SharedCache) : Prop where
  answers : ∀ n call found, before.calls.length ≤ n → after.calls[n]? = some call →
    call.root.key = root.key → call.answer = .ready found → found.stamp ∉ before.started
  stored : ∀ found, after.cache.stored? root = some found → found.stamp ∉ before.started

/-- A scan of a root has started and is still under way. -/
def IsReading (shared : SharedCache) (root : Root) : Prop :=
  ∃ stamp, shared.cache.pending.lookup root.key = some stamp ∧ stamp ∈ shared.started

variable {shared before after next : SharedCache} {root : Root}

/-- The result of a scan bears its stamp. -/
theorem stamp_of_result? {stamp : ℕ} {found : StampedMap}
    (hresult : shared.result? stamp = some found) : found.stamp = stamp := by
  have hfound := List.find?_some hresult
  exact of_decide_eq_true hfound

/-- All stamps of scans have been given out. -/
structure IsStamped (shared : SharedCache) : Prop where
  pending : ∀ entry ∈ shared.cache.pending, entry.2 < shared.cache.nextStamp
  started : ∀ stamp ∈ shared.started, stamp < shared.cache.nextStamp

/-- Stamps are given out before scans start. -/
theorem IsStamped.step (hstamped : shared.IsStamped) (hstep : Step shared next) :
    next.IsStamped := by
  obtain ⟨hpending, hstarted⟩ := hstamped
  cases hstep with
  | call root =>
    rw [SharedCache.call]
    obtain ⟨map, -, hask⟩ | ⟨stamp, -, hask⟩ | hask := shared.cache.ask_cases root
    · rw [hask]
      exact ⟨hpending, hstarted⟩
    · rw [hask]
      exact ⟨hpending, hstarted⟩
    · rw [hask]
      constructor
      · rw [List.forall_mem_cons]
        exact ⟨Nat.lt_succ_self _, fun entry hentry => Nat.lt_succ_of_lt (hpending entry hentry)⟩
      · exact fun stamp hstamp => Nat.lt_succ_of_lt (hstarted stamp hstamp)
  | start hentry => exact ⟨hpending, List.forall_mem_cons.mpr ⟨hpending _ hentry, hstarted⟩⟩
  | store | abandon =>
    exact ⟨fun entry hentry => hpending entry (List.mem_filter.mp hentry).1, hstarted⟩
  | finish | resume | invalidate | invalidateAll | edit => exact ⟨hpending, hstarted⟩

/-- In a run of a new cache all stamps of scans have been given out. -/
theorem isStamped_of_run {config : ScanConfig} {tree : Directory}
    (hrun : Run (new config tree) shared) : shared.IsStamped := by
  induction hrun with
  | refl => exact ⟨List.forall_mem_nil _, List.forall_mem_nil _⟩
  | tail _ hstep ih => exact ih.step hstep

/-! ### Roots without old scans -/

/-- No scan that had started before a moment concerns a root any more: none is under way or stored,
and no call for the root that began since then waits for one or was answered by one. -/
structure IsRidOf (before : SharedCache) (root : Root) (after : SharedCache) : Prop where
  length : before.calls.length ≤ after.calls.length
  issued : ∀ stamp ∈ before.started, stamp < after.cache.nextStamp
  pending : ∀ stamp, after.cache.pending.lookup root.key = some stamp → stamp ∉ before.started
  stored : ∀ found, after.cache.stored? root = some found → found.stamp ∉ before.started
  answers : ∀ n call, before.calls.length ≤ n → after.calls[n]? = some call →
    call.root.key = root.key → call.answer.stamp ∉ before.started

/-- Where no started scan is under way, dropping the map leaves no old one. -/
theorem isRidOf_invalidate (hstamped : before.IsStamped) (hreading : ¬ before.IsReading root) :
    IsRidOf before root (before.invalidate root) where
  length := Nat.le_refl _
  issued := hstamped.started
  pending stamp hpending hstarted := hreading ⟨stamp, hpending, hstarted⟩
  stored found hfound := by
    rw [SharedCache.invalidate, MapCache.stored?_invalidate, if_pos rfl] at hfound
    cases hfound
  answers n call hn hcall := by
    rw [SharedCache.invalidate, List.getElem?_eq_none hn] at hcall
    cases hcall

/-- A call that no old scan answers may follow. -/
theorem IsRidOf.answers_append (hrid : IsRidOf before root after) {asked : Root}
    {answer : CacheAnswer} (hanswer : asked.key = root.key → answer.stamp ∉ before.started) (n : ℕ)
    (call : CacheCall) (hn : before.calls.length ≤ n)
    (hcall : (after.calls ++ [CacheCall.mk asked answer])[n]? = some call)
    (hkey : call.root.key = root.key) : call.answer.stamp ∉ before.started := by
  rw [List.getElem?_append] at hcall
  split_ifs at hcall with hold
  · exact hrid.answers n call hn hcall hkey
  · rw [List.getElem?_singleton] at hcall
    split_ifs at hcall
    cases hcall
    exact hanswer hkey

/-- A call is answered by an entry of the cache or by a scan that starts later. -/
theorem IsRidOf.call (hrid : IsRidOf before root after) (asked : Root) :
    IsRidOf before root (after.call asked) := by
  have hlonger (answer : CacheAnswer) :
      before.calls.length ≤ (after.calls ++ [CacheCall.mk asked answer]).length := by
    rw [List.length_append]
    exact Nat.le_add_right_of_le hrid.length
  have hcases := after.cache.ask_cases asked
  rw [SharedCache.call]
  obtain ⟨map, hmap, hask⟩ | ⟨stamp, hstamp, hask⟩ | hask := hcases
  · rw [hask]
    refine ⟨hlonger _, hrid.issued, hrid.pending, hrid.stored,
      hrid.answers_append fun hkey => hrid.stored map ?_⟩
    rwa [MapCache.stored?, ← hkey]
  · rw [hask]
    refine ⟨hlonger _, hrid.issued, hrid.pending, hrid.stored,
      hrid.answers_append fun hkey => hrid.pending stamp ?_⟩
    rwa [← hkey]
  · have hnext : after.cache.nextStamp ∉ before.started :=
      fun hstarted => Nat.lt_irrefl _ (hrid.issued _ hstarted)
    rw [hask]
    refine ⟨hlonger _, fun stamp hstarted => Nat.lt_succ_of_lt (hrid.issued stamp hstarted), ?_,
      hrid.stored, hrid.answers_append fun _ => hnext⟩
    intro stamp hlookup
    rw [List.lookup_cons] at hlookup
    split at hlookup
    · cases hlookup
      exact hnext
    · exact hrid.pending stamp hlookup

/-- No step brings an old scan back. -/
theorem IsRidOf.step (hrid : IsRidOf before root after) (hstep : Step after next) :
    IsRidOf before root next := by
  cases hstep with
  | call asked => exact hrid.call asked
  | @store completed stamp found hpending hresult =>
    obtain ⟨hlength, hissued, hwaiting, hstored, hanswers⟩ := hrid
    refine ⟨hlength, hissued, fun other hother => ?_, fun other hother => ?_, hanswers⟩
    · rw [MapCache.lookup_pending_complete] at hother
      split_ifs at hother
      exact hwaiting other hother
    · rw [MapCache.stored?_complete] at hother
      split_ifs at hother with hkey
      · cases hother
        rw [stamp_of_result? hresult]
        exact hwaiting stamp (hkey ▸ hpending)
      · exact hstored other hother
  | @resume n stamp asked found hcall hresult =>
    obtain ⟨hlength, hissued, hwaiting, hstored, hanswers⟩ := hrid
    refine ⟨by rwa [List.length_set], hissued, hwaiting, hstored, fun k call hk hset hkey => ?_⟩
    rw [List.getElem?_set] at hset
    split_ifs at hset with hn
    · cases hset
      have hwaited := hanswers n _ (hn ▸ hk) hcall hkey
      rwa [CacheAnswer.stamp, ← stamp_of_result? hresult] at hwaited
    · exact hanswers k call hk hset hkey
  | abandon given =>
    obtain ⟨hlength, hissued, hwaiting, hstored, hanswers⟩ := hrid
    refine ⟨hlength, hissued, fun other hother => ?_, hstored, hanswers⟩
    rw [SharedCache.abandon, MapCache.lookup_filter_ne] at hother
    split_ifs at hother
    exact hwaiting other hother
  | invalidate dropped =>
    obtain ⟨hlength, hissued, hwaiting, hstored, hanswers⟩ := hrid
    refine ⟨hlength, hissued, hwaiting, fun other hother => ?_, hanswers⟩
    rw [SharedCache.invalidate, MapCache.stored?_invalidate] at hother
    split_ifs at hother
    exact hstored other hother
  | invalidateAll =>
    exact ⟨hrid.length, hrid.issued, hrid.pending, fun _ hother => (nomatch hother), hrid.answers⟩
  | start | finish | edit =>
    exact ⟨hrid.length, hrid.issued, hrid.pending, hrid.stored, hrid.answers⟩

/-- No run brings an old scan back. -/
theorem IsRidOf.run (hrid : IsRidOf before root after) (hrun : Run after next) :
    IsRidOf before root next := by
  induction hrun with
  | refl => exact hrid
  | tail _ hstep ih => exact ih.step hstep

/-- What is rid of old scans is fresh. -/
theorem IsRidOf.isFreshSince (hrid : IsRidOf before root after) :
    IsFreshSince before root after where
  answers n call found hn hcall hkey hanswer := by
    have hstamp := hrid.answers n call hn hcall hkey
    rwa [hanswer] at hstamp
  stored := hrid.stored

/-! ### Roots with an old scan -/

/-- A scan that has started can end. -/
theorem exists_run_result? (shared : SharedCache) {key : List String} {stamp : ℕ}
    (hpending : (key, stamp) ∈ shared.cache.pending) (hstarted : stamp ∈ shared.started) :
    ∃ next found, Run shared next ∧ next.result? stamp = some found ∧
      next.cache = shared.cache ∧ next.calls = shared.calls := by
  cases hresult : shared.result? stamp with
  | some found => exact ⟨shared, found, .refl, hresult, rfl, rfl⟩
  | none =>
    have hfinish : Step shared { shared with finished := ⟨stamp, {}⟩ :: shared.finished } :=
      .finish hpending hstarted hresult
    exact ⟨_, ⟨stamp, {}⟩, .single hfinish, by simp [result?], rfl, rfl⟩

/-- Where a started scan is under way as its root is dropped, its map can be stored after all, and
answer a call that begins later. -/
theorem exists_run_of_isReading (hreading : before.IsReading root) :
    ∃ after found, Run (before.invalidate root) after ∧ found.stamp ∈ before.started ∧
      after.cache.stored? root = some found ∧
      after.calls[before.calls.length]? = some ⟨root, .ready found⟩ := by
  obtain ⟨stamp, hpending, hstarted⟩ := hreading
  have hask : (before.invalidate root).cache.ask root =
      (.waiting stamp, (before.invalidate root).cache) := by
    refine MapCache.ask_of_pending ?_ hpending
    rw [invalidate, MapCache.stored?_invalidate, if_pos rfl]
  have hcall : Step (before.invalidate root) ((before.invalidate root).call root) := .call root
  have hentry : (root.key, stamp) ∈ ((before.invalidate root).call root).cache.pending := by
    obtain ⟨front, back, hentries, -⟩ := List.lookup_eq_some_iff.mp hpending
    rw [call, hask, invalidate, MapCache.invalidate, hentries]
    exact List.mem_append_right _ List.mem_cons_self
  -- the new call waits for the old scan, whose map is stored as it ends
  obtain ⟨ended, found, hended, hresult, hcache, hcalls⟩ :=
    exists_run_result? ((before.invalidate root).call root) hentry hstarted
  have hlookup : ended.cache.pending.lookup root.key = some stamp := by
    rw [hcache, call, hask]
    exact hpending
  have hstore : Step ended { ended with cache := ended.cache.complete root found } :=
    .store hlookup hresult
  have hwaits : ended.calls[before.calls.length]? = some ⟨root, .waiting stamp⟩ := by
    rw [hcalls, call, hask]
    exact List.getElem?_concat_length
  have hresume : Step { ended with cache := ended.cache.complete root found }
      { ended with
        cache := ended.cache.complete root found
        calls := ended.calls.set before.calls.length ⟨root, .ready found⟩ } :=
    .resume hwaits hresult
  refine ⟨_, found, ((Relation.ReflTransGen.head hcall hended).tail hstore).tail hresume,
    ?_, ?_, ?_⟩
  · rwa [stamp_of_result? hresult]
  · exact (MapCache.stored?_complete _ root root found).trans (if_pos rfl)
  · exact List.getElem?_set_self (List.getElem?_eq_some_iff.mp hwaits).1

/-- In all runs that follow the dropping of a root, calls that begin later are answered by scans
that started later, and only maps of such scans are stored, exactly if no started scan of the root
is under way as it is dropped. -/
theorem isFreshSince_invalidate_iff {config : ScanConfig} {tree : Directory} (root : Root)
    (hrun : Run (new config tree) before) :
    (∀ after, Run (before.invalidate root) after → IsFreshSince before root after) ↔
      ¬ before.IsReading root := by
  constructor
  · intro hfresh hreading
    obtain ⟨after, found, hafter, hold, hstored, -⟩ := exists_run_of_isReading hreading
    exact (hfresh after hafter).stored found hstored hold
  · intro hreading after hafter
    have hrid := isRidOf_invalidate (isStamped_of_run hrun) hreading
    exact (hrid.run hafter).isFreshSince

/-- The working directory. -/
def here : Root := ⟨".", []⟩

/-- A cache whose only scan is reading. -/
def reading : SharedCache where
  cache := { pending := [(here.key, 0)], nextStamp := 1 }
  tree := .empty
  started := [0]
  calls := [⟨here, .waiting 0⟩]

/-- These steps are a run on a new cache. -/
theorem run_reading : Run (new {} .empty) reading := by
  have hcall : Step (new {} .empty) { reading with started := [] } := .call here
  have hstart : Step { reading with started := [] } reading :=
    @Step.start { reading with started := [] } (here.key, 0) List.mem_cons_self List.not_mem_nil
  exact (Relation.ReflTransGen.single hcall).tail hstart

/-- A cache whose only scan has ended and answered its caller. -/
def answered : SharedCache where
  cache := { stored := [(here.key, ⟨0, {}⟩)], nextStamp := 1 }
  tree := .empty
  started := [0]
  finished := [⟨0, {}⟩]
  calls := [⟨here, .ready ⟨0, {}⟩⟩]

/-- When the map of that scan is dropped, only maps of later scans are left. -/
theorem isFreshSince_invalidate_answered : Run (new {} .empty) answered ∧
    ∀ after, Run (answered.invalidate here) after → IsFreshSince answered here after := by
  have hfinish : Step reading { answered with cache := reading.cache, calls := reading.calls } :=
    .finish List.mem_cons_self List.mem_cons_self rfl
  have hstore : Step { answered with cache := reading.cache, calls := reading.calls }
      { answered with calls := reading.calls } :=
    @Step.store _ here 0 ⟨0, {}⟩ rfl rfl
  have hresume : Step { answered with calls := reading.calls } answered :=
    @Step.resume _ 0 0 here ⟨0, {}⟩ rfl rfl
  have hrun : Run (new {} .empty) answered :=
    ((run_reading.tail hfinish).tail hstore).tail hresume
  refine ⟨hrun, (isFreshSince_invalidate_iff here hrun).mpr ?_⟩
  rintro ⟨stamp, hpending, -⟩
  cases hpending

/-- What can become of the reading cache: a file appears, the root is dropped, a second call begins,
and the scan ends without having seen the file. -/
def joined : SharedCache where
  cache := { stored := [(here.key, ⟨0, {}⟩)], nextStamp := 1 }
  tree := .file "a.ts" [] .empty
  started := [0]
  finished := [⟨0, {}⟩]
  calls := [⟨here, .ready ⟨0, {}⟩⟩, ⟨here, .ready ⟨0, {}⟩⟩]

/-- A call that begins after its root is dropped can be answered by a scan that started before, and
the map of that scan can be stored. -/
theorem joined_not_isFreshSince :
    ∃ before, Run (new {} .empty) before ∧ Run (before.invalidate here) joined ∧
      before.calls.length = 1 ∧ before.started = [0] ∧ ¬ IsFreshSince before here joined := by
  have hedit : Step reading { reading with tree := joined.tree } := .edit joined.tree
  refine ⟨{ reading with tree := joined.tree }, run_reading.tail hedit, ?_, rfl, rfl, ?_⟩
  · have hcall : Step (invalidate { reading with tree := joined.tree } here)
        { reading with
          tree := joined.tree
          calls := [⟨here, .waiting 0⟩, ⟨here, .waiting 0⟩] } := .call here
    have hfinish : Step
        { reading with
          tree := joined.tree
          calls := [⟨here, .waiting 0⟩, ⟨here, .waiting 0⟩] }
        { joined with
          cache := reading.cache
          calls := [⟨here, .waiting 0⟩, ⟨here, .waiting 0⟩] } :=
      .finish List.mem_cons_self List.mem_cons_self rfl
    have hstore : Step
        { joined with
          cache := reading.cache
          calls := [⟨here, .waiting 0⟩, ⟨here, .waiting 0⟩] }
        { joined with calls := [⟨here, .waiting 0⟩, ⟨here, .waiting 0⟩] } :=
      @Step.store _ here 0 ⟨0, {}⟩ rfl rfl
    have hfirst : Step { joined with calls := [⟨here, .waiting 0⟩, ⟨here, .waiting 0⟩] }
        { joined with calls := [⟨here, .ready ⟨0, {}⟩⟩, ⟨here, .waiting 0⟩] } :=
      @Step.resume _ 0 0 here ⟨0, {}⟩ rfl rfl
    have hsecond :
        Step { joined with calls := [⟨here, .ready ⟨0, {}⟩⟩, ⟨here, .waiting 0⟩] } joined :=
      @Step.resume _ 1 0 here ⟨0, {}⟩ rfl rfl
    have hstored := ((Relation.ReflTransGen.single hcall).tail hfinish).tail hstore
    exact (hstored.tail hfirst).tail hsecond
  · intro hfresh
    exact hfresh.stored ⟨0, {}⟩ rfl List.mem_cons_self

end SharedCache

end ChangeImpact
