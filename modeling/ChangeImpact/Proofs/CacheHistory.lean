import ChangeImpact.Proofs.StoredMaps

/-!
# Maps by the history of a cache

A cache is used step after step while the files change. The history of such a run says for every
root which step scanned it: the first to ask for its map since the root was last dropped. Whoever
asks later gets the map of that scan, of the files as they were then, until the root is dropped.
-/

namespace ChangeImpact

/-- One step of a run: a use of the cache, or a change of the files to any others. -/
inductive CacheStep
  | get (root : Root)
  | getTwice (root : Root)
  | importers (root : Root) (path : String)
  | contains (root : Root)
  | invalidate (root : Root)
  | invalidateAll
  | edit (tree : Directory)

/-- What a step gives. -/
inductive CacheReply
  | map (found : StampedMap)
  | pair (first second : StampedMap)
  | files (found : List String)
  | verdict (found : Bool)
  | done

namespace CacheStep

/-- The root whose map a step asks for. -/
def asked? : CacheStep → Option Root
  | get root | getTwice root | importers root _ => some root
  | contains _ | invalidate _ | invalidateAll | edit _ => none

/-- Whether a step asks for the map of a root, under any of its names. -/
def asksFor (root : Root) (step : CacheStep) : Bool := step.asked?.any (root.key = ·.key)

/-- Whether a step drops the map of a root. -/
def drops (root : Root) : CacheStep → Bool
  | invalidate other => root.key = other.key
  | invalidateAll => true
  | get _ | getTwice _ | importers _ _ | contains _ | edit _ => false

/-- The files after a step. -/
def treeAfter (tree : Directory) : CacheStep → Directory
  | edit new => new
  | get _ | getTwice _ | importers _ _ | contains _ | invalidate _ | invalidateAll => tree

end CacheStep

/-- A cache and the files that it is used on. -/
structure CacheSession where
  cache : MapCache
  tree : Directory

namespace CacheSession

/-- What a step gives, and the session after it. -/
def step (session : CacheSession) : CacheStep → CacheReply × CacheSession
  | .get root =>
    let (found, cache) := session.cache.get session.tree root
    (.map found, { session with cache := cache })
  | .getTwice root =>
    let (first, second, cache) := session.cache.getTwice session.tree root
    (.pair first second, { session with cache := cache })
  | .importers root path =>
    let (found, cache) := session.cache.get session.tree root
    (.files (found.map.importersOf path), { session with cache := cache })
  | .contains root => (.verdict (session.cache.contains root), session)
  | .invalidate root => (.done, { session with cache := session.cache.invalidate root })
  | .invalidateAll => (.done, { session with cache := session.cache.invalidateAll })
  | .edit tree => (.done, { session with tree := tree })

/-- The session after some steps. -/
def after (session : CacheSession) (steps : List CacheStep) : CacheSession :=
  steps.foldl (fun session next => (session.step next).2) session

end CacheSession

/-! ### Asking while no scan is under way -/

namespace MapCache

variable {cache : MapCache} {tree : Directory} {root other : Root}

/-- A map that is stored is given without a scan. -/
theorem get_of_stored {map : StampedMap} (hstored : cache.stored? root = some map) :
    cache.get tree root = (map, cache) := by
  rw [get, ask_of_stored hstored]

/-- A map that is not stored is scanned, and stored. -/
theorem get_of_absent (hstored : cache.stored? root = none) (hpending : cache.pending = []) :
    cache.get tree root =
      (cache.scan tree root cache.nextStamp,
        { cache.complete root (cache.scan tree root cache.nextStamp) with
          nextStamp := cache.nextStamp + 1 }) := by
  rw [get, ask_of_absent hstored (by rw [hpending]; rfl)]
  simp [scan, complete, hpending]

/-- The map that is given is the stored one, or else the one of a scan. -/
theorem fst_get (hpending : cache.pending = []) :
    (cache.get tree root).1 =
      (cache.stored? root).getD (cache.scan tree root cache.nextStamp) := by
  cases hstored : cache.stored? root with
  | some map => rw [get_of_stored hstored, Option.getD_some]
  | none => rw [get_of_absent hstored hpending, Option.getD_none]

/-- Under another of its names, a root has the same map. -/
theorem fst_get_eq_of_key_eq (hpending : cache.pending = []) (hkey : root.key = other.key) :
    (cache.get tree root).1 = (cache.get tree other).1 := by
  rw [fst_get hpending, fst_get hpending, stored?, stored?, hkey, scan, scan,
    Root.directory_eq_of_key_eq hkey]

/-- The map that is given is stored from then on. -/
theorem stored?_get (hpending : cache.pending = []) :
    (cache.get tree root).2.stored? other =
      if other.key = root.key then some (cache.get tree root).1 else cache.stored? other := by
  cases hstored : cache.stored? root with
  | some map =>
    rw [get_of_stored hstored]
    split_ifs with hkey
    · rw [← hstored, stored?, stored?, hkey]
    · rfl
  | none =>
    rw [get_of_absent hstored hpending]
    exact stored?_complete cache root other _

/-- To complete a scan once more changes nothing. -/
theorem complete_complete (map : StampedMap) :
    (cache.complete root map).complete root map = cache.complete root map := by
  simp [complete]

/-- Two requests at the same time are answered like one. -/
theorem getTwice_eq (hpending : cache.pending = []) :
    cache.getTwice tree root =
      ((cache.get tree root).1, (cache.get tree root).1, (cache.get tree root).2) := by
  cases hstored : cache.stored? root with
  | some map =>
    rw [getTwice, ask_of_stored hstored, get_of_stored hstored]
    simp only [ask_of_stored hstored]
  | none =>
    have hfirst := ask_of_absent hstored (by rw [hpending]; rfl)
    have hsecond : (cache.ask root).2.ask root =
        (.waiting cache.nextStamp, (cache.ask root).2) := by
      rw [hfirst]
      exact ask_of_pending hstored List.lookup_cons_self
    rw [getTwice, get, hfirst]
    rw [hfirst] at hsecond
    simp only [hsecond, if_true, complete_complete]

/-- Getting a map leaves no scan under way. -/
theorem pending_get (hpending : cache.pending = []) : (cache.get tree root).2.pending = [] := by
  cases hstored : cache.stored? root with
  | some map => rw [get_of_stored hstored, hpending]
  | none => rw [get_of_absent hstored hpending]; simp [complete, hpending]

/-- Getting a map leaves the configuration of the cache as it is. -/
theorem config_get (hpending : cache.pending = []) :
    (cache.get tree root).2.config = cache.config := by
  cases hstored : cache.stored? root with
  | some map => rw [get_of_stored hstored]
  | none => rw [get_of_absent hstored hpending]; rfl

/-- Only a scan takes a stamp. -/
theorem nextStamp_get (hpending : cache.pending = []) : (cache.get tree root).2.nextStamp =
    if cache.stored? root = none then cache.nextStamp + 1 else cache.nextStamp := by
  cases hstored : cache.stored? root with
  | some map => rw [get_of_stored hstored]; simp
  | none => rw [get_of_absent hstored hpending]; simp

end MapCache

/-! ### One step of a run -/

namespace CacheSession

variable {session : CacheSession} {step : CacheStep} {root : Root}

/-- A step that asks for the map of a root changes the cache as getting the map does. -/
theorem step_of_asked (hpending : session.cache.pending = []) (hasked : step.asked? = some root) :
    (session.step step).2 =
      { session with cache := (session.cache.get session.tree root).2 } := by
  cases step with
  | get other | importers other =>
    cases hasked
    rfl
  | getTwice other =>
    cases hasked
    rw [CacheSession.step, MapCache.getTwice_eq hpending]
  | contains | invalidate | invalidateAll | edit => cases hasked

/-- Other steps can at most drop maps and change the files. -/
theorem step_of_not_asked (session : CacheSession) (hasked : step.asked? = none) :
    (∀ root, (session.step step).2.cache.stored? root =
        if step.drops root then none else session.cache.stored? root) ∧
      (session.step step).2.cache.pending = session.cache.pending ∧
      (session.step step).2.cache.config = session.cache.config ∧
      (session.step step).2.cache.nextStamp = session.cache.nextStamp := by
  cases step with
  | get | importers | getTwice => cases hasked
  | contains | invalidateAll | edit => exact ⟨fun _ => rfl, rfl, rfl, rfl⟩
  | invalidate other =>
    refine ⟨fun root => ?_, rfl, rfl, rfl⟩
    rw [CacheSession.step, MapCache.stored?_invalidate]
    simp only [CacheStep.drops, decide_eq_true_eq]

end CacheSession

/-! ### Runs -/

/-- A run of steps on a new cache. -/
structure CacheRun where
  config : ScanConfig
  /-- The files at the start. -/
  tree : Directory
  steps : List CacheStep

namespace CacheRun

/-- The session before a step. -/
def sessionAt (run : CacheRun) (n : ℕ) : CacheSession :=
  CacheSession.after ⟨{ config := run.config }, run.tree⟩ (run.steps.take n)

/-- The files before a step. -/
def treeAt (run : CacheRun) (n : ℕ) : Directory :=
  (run.steps.take n).foldl CacheStep.treeAfter run.tree

/-- Step `n` asks for the map of a root. -/
def AsksAt (run : CacheRun) (root : Root) (n : ℕ) : Prop :=
  ∃ step, run.steps[n]? = some step ∧ step.asksFor root = true

/-- Step `n` drops the map of a root. -/
def DropsAt (run : CacheRun) (root : Root) (n : ℕ) : Prop :=
  ∃ step, run.steps[n]? = some step ∧ step.drops root = true

/-- The map of a root is not dropped between the steps `i` and `n`. -/
def KeptSince (run : CacheRun) (root : Root) (i n : ℕ) : Prop :=
  ∀ k, i < k → k < n → ¬ run.DropsAt root k

/-- Step `n` is the first to ask for the map of a root since it was last dropped. -/
def ScansAt (run : CacheRun) (root : Root) (n : ℕ) : Prop :=
  run.AsksAt root n ∧ ∀ i < n, run.AsksAt root i → ¬ run.KeptSince root i n

/-- The map of the files below a root as they are before a step. -/
def mapAt (run : CacheRun) (root : Root) (n : ℕ) : ReverseMap :=
  ReverseMap.ofDirectory (root.resolved.directory (run.treeAt n)) run.config

/-- The map that the history of a run has for a root at step `n`, where `object` tells the maps of
different scans apart. -/
def HasMap (run : CacheRun) (object : ℕ → ℕ) (n : ℕ) (root : Root) (found : StampedMap) : Prop :=
  ∃ i ≤ n, run.ScansAt root i ∧ run.KeptSince root i n ∧ found = ⟨object i, run.mapAt root i⟩

/-- What step `n` gives according to the history of a run. -/
def Fits (run : CacheRun) (object : ℕ → ℕ) (n : ℕ) : CacheStep → CacheReply → Prop
  | .get root, .map found => run.HasMap object n root found
  | .getTwice root, .pair first second => run.HasMap object n root first ∧ second = first
  | .importers root path, .files found =>
    ∃ map, run.HasMap object n root map ∧ found = map.map.importersOf path
  | .contains root, .verdict found =>
    found = true ↔ ∃ i < n, run.AsksAt root i ∧ run.KeptSince root i n
  | .invalidate _, .done | .invalidateAll, .done | .edit _, .done => True
  | _, _ => False

variable {run : CacheRun} {n : ℕ} {step : CacheStep} {root : Root}

/-- The stamp that the next scan takes tells the maps of a run apart. -/
def stampAt (run : CacheRun) (n : ℕ) : ℕ := (run.sessionAt n).cache.nextStamp

/-- A cache holds what the history of its run says. -/
structure Tracks (run : CacheRun) (n : ℕ) : Prop where
  config : (run.sessionAt n).cache.config = run.config
  tree : (run.sessionAt n).tree = run.treeAt n
  pending : (run.sessionAt n).cache.pending = []
  of_stored : ∀ root found, (run.sessionAt n).cache.stored? root = some found →
    ∃ i < n, run.ScansAt root i ∧ run.KeptSince root i n ∧
      found = ⟨run.stampAt i, run.mapAt root i⟩
  of_absent : ∀ root, (run.sessionAt n).cache.stored? root = none →
    ∀ i < n, run.AsksAt root i → ¬ run.KeptSince root i n

/-- The session after a step of the run is what the step leaves. -/
theorem sessionAt_succ (hstep : run.steps[n]? = some step) :
    run.sessionAt (n + 1) = ((run.sessionAt n).step step).2 := by
  rw [sessionAt, List.take_add_one, hstep, Option.toList_some, CacheSession.after,
    List.foldl_append]
  rfl

/-- The files after a step of the run are what the step leaves. -/
theorem treeAt_succ (hstep : run.steps[n]? = some step) :
    run.treeAt (n + 1) = step.treeAfter (run.treeAt n) := by
  rw [treeAt, List.take_add_one, hstep, Option.toList_some, List.foldl_append]
  rfl

/-- A map is kept over a step that does not drop it. -/
theorem KeptSince.succ {i : ℕ} (hkept : run.KeptSince root i n)
    (hstep : run.steps[n]? = some step) (hdrops : step.drops root = false) :
    run.KeptSince root i (n + 1) := by
  rintro k hik hk ⟨dropping, hdropping, hdrop⟩
  obtain hk | rfl := Nat.lt_succ_iff_lt_or_eq.mp hk
  · exact hkept k hik hk ⟨dropping, hdropping, hdrop⟩
  · rw [hstep, Option.some.injEq] at hdropping
    rw [hdropping, hdrop] at hdrops
    cases hdrops

/-- A map that is kept up to a step was kept before. -/
theorem KeptSince.of_succ {i : ℕ} (hkept : run.KeptSince root i (n + 1)) :
    run.KeptSince root i n := fun k hik hk => hkept k hik (Nat.lt_succ_of_lt hk)

/-- The first to ask for a map since it was dropped finds none stored. -/
theorem Tracks.stored?_of_scansAt (htracks : run.Tracks n) (hscans : run.ScansAt root n) :
    (run.sessionAt n).cache.stored? root = none := by
  cases hstored : (run.sessionAt n).cache.stored? root with
  | none => rfl
  | some found =>
    obtain ⟨i, hi, hscansBefore, hkept, -⟩ := htracks.of_stored root found hstored
    exact absurd hkept (hscans.2 i hi hscansBefore.1)

/-- Who asks for a map is given the one of the history. -/
theorem Tracks.hasMap_get (htracks : run.Tracks n) (hasks : run.AsksAt root n) :
    run.HasMap run.stampAt n root
      ((run.sessionAt n).cache.get (run.sessionAt n).tree root).1 := by
  rw [MapCache.fst_get htracks.pending]
  cases hstored : (run.sessionAt n).cache.stored? root with
  | some found =>
    obtain ⟨i, hi, hscans, hkept, hfound⟩ := htracks.of_stored root found hstored
    exact ⟨i, Nat.le_of_lt hi, hscans, hkept, hfound⟩
  | none =>
    refine ⟨n, Nat.le_refl n, ⟨hasks, htracks.of_absent root hstored⟩, fun k hnk hkn => ?_, ?_⟩
    · exact absurd hnk (Nat.lt_asymm hkn)
    · rw [Option.getD_none, MapCache.scan, htracks.tree, htracks.config]
      rfl

/-- A step that asks for a map leaves it stored. -/
theorem Tracks.succ_of_asked (htracks : run.Tracks n) (hstep : run.steps[n]? = some step)
    {asked : Root} (hasked : step.asked? = some asked) : run.Tracks (n + 1) := by
  have hpending := htracks.pending
  have hnext : run.sessionAt (n + 1) = { run.sessionAt n with
      cache := ((run.sessionAt n).cache.get (run.sessionAt n).tree asked).2 } := by
    rw [sessionAt_succ hstep, CacheSession.step_of_asked hpending hasked]
  have hdrops (root : Root) : step.drops root = false := by
    cases step with
    | get | getTwice | importers => rfl
    | contains | invalidate | invalidateAll | edit => cases hasked
  have hasks (root : Root) : run.AsksAt root n ↔ root.key = asked.key := by
    simp [AsksAt, hstep, CacheStep.asksFor, hasked]
  constructor
  · rw [hnext, MapCache.config_get hpending, htracks.config]
  · rw [hnext, treeAt_succ hstep, htracks.tree]
    cases step with
    | get | getTwice | importers => rfl
    | contains | invalidate | invalidateAll | edit => cases hasked
  · rw [hnext, MapCache.pending_get hpending]
  · intro root found hfound
    rw [hnext, MapCache.stored?_get hpending] at hfound
    split_ifs at hfound with hkey
    · rw [Option.some.injEq] at hfound
      obtain ⟨i, hi, hscans, hkept, hmap⟩ := htracks.hasMap_get ((hasks root).mpr hkey)
      rw [← MapCache.fst_get_eq_of_key_eq hpending hkey] at hfound
      exact ⟨i, Nat.lt_succ_of_le hi, hscans, hkept.succ hstep (hdrops root),
        hfound.symm.trans hmap⟩
    · obtain ⟨i, hi, hscans, hkept, hmap⟩ := htracks.of_stored root found hfound
      exact ⟨i, Nat.lt_succ_of_lt hi, hscans, hkept.succ hstep (hdrops root), hmap⟩
  · intro root habsent i hi hasksBefore hkept
    rw [hnext, MapCache.stored?_get hpending] at habsent
    split_ifs at habsent with hkey
    obtain hi | rfl := Nat.lt_succ_iff_lt_or_eq.mp hi
    · exact htracks.of_absent root habsent i hi hasksBefore hkept.of_succ
    · exact hkey ((hasks root).mp hasksBefore)

/-- A step that asks for no map leaves those stored that it does not drop. -/
theorem Tracks.succ_of_not_asked (htracks : run.Tracks n) (hstep : run.steps[n]? = some step)
    (hasked : step.asked? = none) : run.Tracks (n + 1) := by
  have hasks (root : Root) : ¬ run.AsksAt root n := by
    simp [AsksAt, hstep, CacheStep.asksFor, hasked]
  obtain ⟨hstored, hpending, hconfig, -⟩ :=
    CacheSession.step_of_not_asked (run.sessionAt n) hasked
  constructor
  · rw [sessionAt_succ hstep, hconfig, htracks.config]
  · rw [sessionAt_succ hstep, treeAt_succ hstep, ← htracks.tree]
    cases step <;> rfl
  · rw [sessionAt_succ hstep, hpending, htracks.pending]
  · intro root found hfound
    rw [sessionAt_succ hstep, hstored] at hfound
    split_ifs at hfound with hdrops
    obtain ⟨i, hi, hscans, hkept, hmap⟩ := htracks.of_stored root found hfound
    exact ⟨i, Nat.lt_succ_of_lt hi, hscans, hkept.succ hstep (Bool.eq_false_iff.mpr hdrops),
      hmap⟩
  · intro root habsent i hi hasksBefore hkept
    rw [sessionAt_succ hstep, hstored] at habsent
    obtain hi | rfl := Nat.lt_succ_iff_lt_or_eq.mp hi
    · split_ifs at habsent with hdrops
      · exact hkept n hi (Nat.lt_succ_self n) ⟨step, hstep, hdrops⟩
      · exact htracks.of_absent root habsent i hi hasksBefore hkept.of_succ
    · exact hasks root hasksBefore

/-- The cache of a run holds what the history says, before every step. -/
theorem tracks (run : CacheRun) (hn : n ≤ run.steps.length) : run.Tracks n := by
  induction n with
  | zero =>
    exact ⟨rfl, rfl, rfl, fun _ _ hfound => (nomatch hfound),
      fun _ _ i hi => absurd hi (Nat.not_lt_zero i)⟩
  | succ n ih =>
    have hstep : run.steps[n]? = some run.steps[n] := List.getElem?_eq_getElem hn
    have htracks := ih (Nat.le_of_succ_le hn)
    cases hasked : run.steps[n].asked? with
    | some asked => exact htracks.succ_of_asked hstep hasked
    | none => exact htracks.succ_of_not_asked hstep hasked

/-- What a step gives is what the history says. -/
theorem Tracks.fits (htracks : run.Tracks n) (hstep : run.steps[n]? = some step) :
    run.Fits run.stampAt n step ((run.sessionAt n).step step).1 := by
  have hget (root : Root) (hasked : step.asked? = some root) :
      run.HasMap run.stampAt n root
        ((run.sessionAt n).cache.get (run.sessionAt n).tree root).1 :=
    htracks.hasMap_get ⟨step, hstep, by simp [CacheStep.asksFor, hasked]⟩
  cases step with
  | get root => exact hget root rfl
  | getTwice root =>
    rw [CacheSession.step, MapCache.getTwice_eq htracks.pending]
    exact ⟨hget root rfl, rfl⟩
  | importers root path => exact ⟨_, hget root rfl, rfl⟩
  | contains root =>
    have hverdict : (run.sessionAt n).cache.contains root = true ↔
        ((run.sessionAt n).cache.stored? root).isSome = true := Iff.rfl
    refine hverdict.trans ?_
    cases hstored : (run.sessionAt n).cache.stored? root with
    | some found =>
      obtain ⟨i, hi, hscans, hkept, -⟩ := htracks.of_stored root found hstored
      exact iff_of_true rfl ⟨i, hi, hscans.1, hkept⟩
    | none =>
      refine iff_of_false Bool.false_ne_true ?_
      rintro ⟨i, hi, hasks, hkept⟩
      exact htracks.of_absent root hstored i hi hasks hkept
  | invalidate | invalidateAll | edit => trivial

/-- Stamps are never taken back. -/
theorem Tracks.stampAt_le_succ (htracks : run.Tracks n) (hstep : run.steps[n]? = some step) :
    run.stampAt n ≤ run.stampAt (n + 1) := by
  rw [stampAt, stampAt, sessionAt_succ hstep]
  cases hasked : step.asked? with
  | some asked =>
    rw [CacheSession.step_of_asked htracks.pending hasked, MapCache.nextStamp_get htracks.pending]
    split_ifs <;> omega
  | none => exact Nat.le_of_eq (CacheSession.step_of_not_asked _ hasked).2.2.2.symm

/-- A scan takes a stamp. -/
theorem Tracks.stampAt_lt_succ (htracks : run.Tracks n) (hscans : run.ScansAt root n) :
    run.stampAt n < run.stampAt (n + 1) := by
  obtain ⟨step, hstep, hasks⟩ := hscans.1
  rw [CacheStep.asksFor, Option.any_eq_true] at hasks
  obtain ⟨asked, hasked, hkey⟩ := hasks
  have habsent : (run.sessionAt n).cache.stored? asked = none := by
    have hroot := htracks.stored?_of_scansAt hscans
    rwa [MapCache.stored?, of_decide_eq_true hkey] at hroot
  rw [stampAt, stampAt, sessionAt_succ hstep, CacheSession.step_of_asked htracks.pending hasked,
    MapCache.nextStamp_get htracks.pending, if_pos habsent]
  exact Nat.lt_succ_self _

/-- The stamps of a run never decrease. -/
theorem stampAt_mono (run : CacheRun) {i : ℕ} (hin : i ≤ n) (hn : n ≤ run.steps.length) :
    run.stampAt i ≤ run.stampAt n := by
  induction n with
  | zero =>
    obtain rfl := Nat.le_zero.mp hin
    exact Nat.le_refl _
  | succ n ih =>
    obtain hin | rfl := Nat.le_succ_iff.mp hin
    · have hle := ih hin (Nat.le_of_succ_le hn)
      have hstep : run.steps[n]? = some run.steps[n] := List.getElem?_eq_getElem hn
      exact Nat.le_trans hle ((run.tracks (Nat.le_of_succ_le hn)).stampAt_le_succ hstep)
    · exact Nat.le_refl _

/-- A step that scans is a step of the run. -/
theorem ScansAt.lt_length (hscans : run.ScansAt root n) : n < run.steps.length := by
  obtain ⟨⟨step, hstep, -⟩, -⟩ := hscans
  exact (List.getElem?_eq_some_iff.mp hstep).1

/-- A later scan takes a later stamp. -/
theorem stampAt_lt_of_scansAt {i : ℕ} {other : Root} (hin : i < n) (hfirst : run.ScansAt root i)
    (hsecond : run.ScansAt other n) : run.stampAt i < run.stampAt n :=
  Nat.lt_of_lt_of_le
    ((run.tracks (Nat.le_of_lt hfirst.lt_length)).stampAt_lt_succ hfirst)
    (run.stampAt_mono hin (Nat.le_of_lt hsecond.lt_length))

/-- Every use of a cache gives what the history says: a map is the one of the first step to ask for
it since its root was dropped, one object for each such scan; a root is contained exactly if its map
was asked for and not dropped since; and dropping one root leaves the others as they are. -/
theorem replies_of_history (run : CacheRun) : ∃ object : ℕ → ℕ,
    (∀ i n first second, run.ScansAt first i → run.ScansAt second n →
      object i = object n → i = n) ∧
    (∀ n step, run.steps[n]? = some step →
      run.Fits object n step ((run.sessionAt n).step step).1) ∧
    ∀ n root other, run.steps[n]? = some (.invalidate root) → other.key ≠ root.key →
      (run.sessionAt (n + 1)).cache.stored? other = (run.sessionAt n).cache.stored? other := by
  refine ⟨run.stampAt, ?_, ?_, ?_⟩
  · intro i n first second hfirst hsecond hobject
    obtain hlt | heq | hgt := Nat.lt_trichotomy i n
    · exact absurd hobject (Nat.ne_of_lt (stampAt_lt_of_scansAt hlt hfirst hsecond))
    · exact heq
    · exact absurd hobject.symm (Nat.ne_of_lt (stampAt_lt_of_scansAt hgt hsecond hfirst))
  · intro n step hstep
    have hn := (List.getElem?_eq_some_iff.mp hstep).1
    exact (run.tracks (Nat.le_of_lt hn)).fits hstep
  · intro n root other hstep hkey
    rw [sessionAt_succ hstep]
    exact (MapCache.stored?_invalidate _ root other).trans (if_neg hkey)

end CacheRun

end ChangeImpact
