import ChangeImpact.Import.Cache
import ChangeImpact.Proofs.FolderPlaces
import Mathlib.Data.Nat.Notation
import Mathlib.Tactic.SplitIfs

/-!
# Stored maps and scans under way

What the operations of a cache do to its entries. Completing a scan, and dropping a map, concern the
entries of one root alone; asking for a map changes nothing unless a scan has to be started. Roots
with the same key are one directory, and paths that lead to one place from the working directory,
relative or not, name roots with the same key.
-/

namespace ChangeImpact

/-- The key of a root is the place to which its path leads. -/
theorem Root.key_ofPath (here path : String) :
    (Root.ofPath here path).key = Path.reach [] (Path.join here path) :=
  Root.resolved_ofPath here path

/-- A working directory has the same key by its path from the top, by a dot and by a way around. -/
example : (["/work", ".", "../work", "/srv/..//work/"].map fun path =>
    (Root.ofPath "/work" path).key) = List.replicate 4 ["work"] := by decide

/-- Roots with the same key are the same directory. -/
theorem Root.directory_eq_of_key_eq {root other : Root} (hkey : root.key = other.key)
    (tree : Directory) : root.resolved.directory tree = other.resolved.directory tree := by
  have hplace : root.resolved.place = other.resolved.place := hkey
  rw [directory, directory, lookUp, lookUp, hplace]

namespace MapCache

section Lookup

variable {κ β : Type} [BEq κ] [LawfulBEq κ] [DecidableEq κ]

/-- Without the entries of one key, only that key is not found any more. -/
theorem lookup_filter_ne (key other : κ) (entries : List (κ × β)) :
    (entries.filter fun entry => entry.1 != key).lookup other =
      if other = key then none else entries.lookup other := by
  induction entries with
  | nil => simp
  | cons entry rest ih =>
    rw [List.filter_cons, List.lookup_cons]
    by_cases hentry : entry.1 = key
    · rw [if_neg (by simp [hentry]), ih]
      split_ifs with hother
      · rfl
      · rw [hentry, beq_false_of_ne hother]
    · rw [if_pos (by simp [hentry]), List.lookup_cons, ih]
      by_cases hother : other = entry.1
      · simp only [hother, beq_self_eq_true, if_neg hentry]
      · simp only [beq_false_of_ne hother]

/-- With an entry in place of those of its key, that key has a new value. -/
theorem lookup_replaced (key other : κ) (value : β) (entries : List (κ × β)) :
    ((key, value) :: entries.filter fun entry => entry.1 != key).lookup other =
      if other = key then some value else entries.lookup other := by
  rw [List.lookup_cons, lookup_filter_ne]
  split_ifs with hother
  · simp only [hother, beq_self_eq_true]
  · simp only [beq_false_of_ne hother]

end Lookup

variable (cache : MapCache) (root other : Root)

/-- A completed scan has its map stored. -/
@[simp] theorem stored?_complete (map : StampedMap) : (cache.complete root map).stored? other =
    if other.key = root.key then some map else cache.stored? other :=
  lookup_replaced _ _ _ _

/-- A completed scan is no longer under way. -/
@[simp] theorem lookup_pending_complete (map : StampedMap) :
    (cache.complete root map).pending.lookup other.key =
      if other.key = root.key then none else cache.pending.lookup other.key :=
  lookup_filter_ne _ _ _

/-- Dropping the map of a root leaves those of all others. -/
@[simp] theorem stored?_invalidate : (cache.invalidate root).stored? other =
    if other.key = root.key then none else cache.stored? other :=
  lookup_filter_ne _ _ _

/-- No map is stored once all are dropped. -/
@[simp] theorem stored?_invalidateAll : cache.invalidateAll.stored? other = none := rfl

variable {cache root}

/-- A stored map is given at once. -/
theorem ask_of_stored {map : StampedMap} (hstored : cache.stored? root = some map) :
    cache.ask root = (.ready map, cache) := by
  rw [ask, hstored]

/-- Where no map is stored, a scan under way is waited for. -/
theorem ask_of_pending {stamp : ℕ} (hstored : cache.stored? root = none)
    (hpending : cache.pending.lookup root.key = some stamp) :
    cache.ask root = (.waiting stamp, cache) := by
  rw [ask, hstored]
  simp only [hpending]

/-- Where there is neither a map nor a scan, a scan with the next stamp is started. -/
theorem ask_of_absent (hstored : cache.stored? root = none)
    (hpending : cache.pending.lookup root.key = none) :
    cache.ask root = (.waiting cache.nextStamp,
      { cache with
        pending := (root.key, cache.nextStamp) :: cache.pending
        nextStamp := cache.nextStamp + 1 }) := by
  rw [ask, hstored]
  simp only [hpending]

/-- Asking for a map gives the stored one, or the scan under way, or a new scan. -/
theorem ask_cases (cache : MapCache) (root : Root) :
    (∃ map, cache.stored? root = some map ∧ cache.ask root = (.ready map, cache)) ∨
    (∃ stamp, cache.pending.lookup root.key = some stamp ∧
      cache.ask root = (.waiting stamp, cache)) ∨
    cache.ask root = (.waiting cache.nextStamp,
      { cache with
        pending := (root.key, cache.nextStamp) :: cache.pending
        nextStamp := cache.nextStamp + 1 }) := by
  cases hstored : cache.stored? root with
  | some map => exact .inl ⟨map, rfl, ask_of_stored hstored⟩
  | none =>
    cases hpending : cache.pending.lookup root.key with
    | some stamp => exact .inr (.inl ⟨stamp, rfl, ask_of_pending hstored hpending⟩)
    | none => exact .inr (.inr (ask_of_absent hstored hpending))

end MapCache

end ChangeImpact
