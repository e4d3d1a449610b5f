import ChangeImpact.Import.ReverseMap
import Mathlib.Data.ENat.Lattice

/-!
# Distances along imports

A chain of imports leads from a file down to one that it depends on, directly or through others.
The distance of a file from some targets is the length of a shortest such chain. A file within
distance `k + 1` is a target itself or imports a file within distance `k`; all that is said about
rounds of a search rests on this.
-/

namespace ChangeImpact.ReverseMap

variable {map : ReverseMap} {targets : List String} {file next target : String} {n k : ℕ}

/-- `ImportChain map n file target` holds if a chain of `n` imports leads from `file` down to
`target`. -/
inductive ImportChain (map : ReverseMap) : ℕ → String → String → Prop
  | here (file : String) : ImportChain map 0 file file
  | step {n : ℕ} {file next target : String} (link : ⟨file, next⟩ ∈ map.links)
      (chain : ImportChain map n next target) : ImportChain map (n + 1) file target

/-- The length of a shortest chain of imports from a file down to one of the targets; infinite if
there is none. -/
noncomputable def importDistance (map : ReverseMap) (targets : List String) (file : String) : ℕ∞ :=
  ⨅ n ∈ {n : ℕ | ∃ target ∈ targets, ImportChain map n file target}, (n : ℕ∞)

/-- A file is within a finite distance exactly if a chain of at most that length exists. -/
theorem importDistance_le_iff :
    map.importDistance targets file ≤ k ↔
      ∃ n ≤ k, ∃ target ∈ targets, ImportChain map n file target := by
  constructor
  · intro hle
    by_contra hnone
    have hlong : ((k + 1 : ℕ) : ℕ∞) ≤ map.importDistance targets file := by
      refine le_iInf₂ fun n ⟨target, htarget, hchain⟩ => ?_
      have hn : ¬ n ≤ k := fun hn => hnone ⟨n, hn, target, htarget, hchain⟩
      exact Nat.cast_le.mpr (by omega)
    have hk : k + 1 ≤ k := Nat.cast_le.mp (hlong.trans hle)
    omega
  · rintro ⟨n, hn, hchain⟩
    exact (iInf₂_le n hchain).trans (Nat.cast_le.mpr hn)

/-- The targets are the files at distance zero. -/
theorem importDistance_eq_zero_iff : map.importDistance targets file = 0 ↔ file ∈ targets := by
  rw [← nonpos_iff_eq_zero, ← Nat.cast_zero, importDistance_le_iff]
  constructor
  · rintro ⟨n, hn, target, htarget, hchain⟩
    cases hchain with
    | here => exact htarget
    | step => omega
  · intro hfile
    exact ⟨0, le_rfl, file, hfile, .here file⟩

/-- A file within distance `k + 1` is a target or imports a file within distance `k`. -/
theorem importDistance_le_succ_iff :
    map.importDistance targets file ≤ (k + 1 : ℕ) ↔
      file ∈ targets ∨ ∃ next, ⟨file, next⟩ ∈ map.links ∧ map.importDistance targets next ≤ k := by
  simp only [importDistance_le_iff]
  constructor
  · rintro ⟨n, hn, target, htarget, hchain⟩
    cases hchain with
    | here => exact .inl htarget
    | step link chain => exact .inr ⟨_, link, _, by omega, target, htarget, chain⟩
  · rintro (hfile | ⟨next, link, n, hn, target, htarget, chain⟩)
    · exact ⟨0, by omega, file, hfile, .here file⟩
    · exact ⟨n + 1, by omega, target, htarget, .step link chain⟩

/-- A file at distance `k + 1` is one that is no nearer and imports a file at distance `k`. -/
theorem importDistance_eq_succ_iff :
    map.importDistance targets file = (k + 1 : ℕ) ↔
      ¬ map.importDistance targets file ≤ k ∧
        ∃ next, ⟨file, next⟩ ∈ map.links ∧ map.importDistance targets next = k := by
  rw [le_antisymm_iff, importDistance_le_succ_iff, Nat.cast_add_one, ENat.natCast_add_one_le_iff,
    not_le]
  constructor
  · rintro ⟨hnear, hfar⟩
    refine ⟨hfar, ?_⟩
    obtain hfile | ⟨next, link, hnext⟩ := hnear
    · rw [importDistance_eq_zero_iff.mpr hfile] at hfar
      exact absurd hfar not_lt_zero
    · refine ⟨next, link, le_antisymm hnext ?_⟩
      -- A nearer `next` would bring the file itself within distance `k`.
      by_contra hless
      obtain ⟨m, hm, hmk⟩ := ENat.le_natCast_iff.mp hnext
      rw [hm, Nat.cast_le, not_le] at hless
      have hfile : map.importDistance targets file ≤ (m + 1 : ℕ) :=
        importDistance_le_succ_iff.mpr (.inr ⟨next, link, hm.le⟩)
      have hlt : k < m + 1 := Nat.cast_lt.mp (hfar.trans_le hfile)
      omega
  · rintro ⟨hfar, next, link, hnext⟩
    exact ⟨.inr ⟨next, link, hnext.le⟩, hfar⟩

end ChangeImpact.ReverseMap
