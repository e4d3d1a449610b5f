import ChangeImpact.Import.Scan

/-!
# A cache of reverse dependency maps

The cache holds one map for each root, made by a scan that bears a stamp. To ask for a map either
gives the stored one or points to a scan under way, which is started if there is none; the scan's
completion stores its map. A map stays until its root, or everything, is invalidated.
-/

namespace ChangeImpact

/-- What tells two roots apart: their place with every `..` taken back, however they are named. -/
def Root.key (root : Root) : List String := root.resolved.place

/-- A map and the stamp of the scan that made it. -/
structure StampedMap where
  stamp : Nat
  map : ReverseMap
  deriving DecidableEq, Repr

/-- Stored maps and scans under way, by root. -/
structure MapCache where
  config : ScanConfig := {}
  stored : List (List String × StampedMap) := []
  pending : List (List String × Nat) := []
  nextStamp : Nat := 0
  deriving DecidableEq, Repr

/-- What asking for a map gives: the map, or the stamp of the scan that will make it. -/
inductive CacheAnswer
  | ready (map : StampedMap)
  | waiting (stamp : Nat)
  deriving DecidableEq, Repr

namespace MapCache

/-- The stored map of a root. -/
def stored? (cache : MapCache) (root : Root) : Option StampedMap := cache.stored.lookup root.key

/-- Asks for the map of a root. -/
def ask (cache : MapCache) (root : Root) : CacheAnswer × MapCache :=
  match cache.stored? root with
  | some map => (.ready map, cache)
  | none =>
    match cache.pending.lookup root.key with
    | some stamp => (.waiting stamp, cache)
    | none =>
      (.waiting cache.nextStamp,
        { cache with
          pending := (root.key, cache.nextStamp) :: cache.pending
          nextStamp := cache.nextStamp + 1 })

/-- Ends the scan under way for a root, with the map that it made. -/
def complete (cache : MapCache) (root : Root) (map : StampedMap) : MapCache :=
  { cache with
    pending := cache.pending.filter fun entry => entry.1 != root.key
    stored := (root.key, map) :: cache.stored.filter fun entry => entry.1 != root.key }

/-- The map that a scan of a root makes. -/
def scan (cache : MapCache) (tree : Directory) (root : Root) (stamp : Nat) : StampedMap :=
  ⟨stamp, ReverseMap.ofDirectory (root.resolved.directory tree) cache.config⟩

/-- The map of a root, scanned now unless it is stored. -/
def get (cache : MapCache) (tree : Directory) (root : Root) : StampedMap × MapCache :=
  match cache.ask root with
  | (.ready map, cache) => (map, cache)
  | (.waiting stamp, cache) =>
    let map := cache.scan tree root stamp
    (map, cache.complete root map)

/-- Two requests for the map of a root, the second made before the first is answered. -/
def getTwice (cache : MapCache) (tree : Directory) (root : Root) :
    StampedMap × StampedMap × MapCache :=
  let (first, cache) := cache.ask root
  let (second, cache) := cache.ask root
  match first, second with
  | .waiting stamp, .waiting later =>
    let map := cache.scan tree root stamp
    let other := if stamp = later then map else cache.scan tree root later
    (map, other, (cache.complete root map).complete root other)
  | .ready map, .ready other => (map, other, cache)
  | .ready map, .waiting stamp =>
    let other := cache.scan tree root stamp
    (map, other, cache.complete root other)
  | .waiting stamp, .ready other =>
    let map := cache.scan tree root stamp
    (map, other, cache.complete root map)

/-- Whether the map of a root is stored. -/
def contains (cache : MapCache) (root : Root) : Bool := (cache.stored? root).isSome

/-- Drops the stored map of a root. -/
def invalidate (cache : MapCache) (root : Root) : MapCache :=
  { cache with stored := cache.stored.filter fun entry => entry.1 != root.key }

/-- Drops all stored maps. -/
def invalidateAll (cache : MapCache) : MapCache := { cache with stored := [] }

end MapCache

/-- The importers of a module that is named by hand, with or without its extension or index file. -/
def ReverseMap.importersOf (map : ReverseMap) (path : String) : List String :=
  let module := Path.trimSlashesLeft (Path.normalize (Path.forwardSlashes path))
  match Import.matchModule module map.files with
  | some file => map.dependents file
  | none => []

end ChangeImpact
