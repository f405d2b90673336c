import Mathlib.Data.Finmap

/-!
# Unordered finite maps

The hash maps of the source are finite maps whose iteration order is unspecified. `Finmap` is such
a map; what is added here is the case form of its lookup equations and the statement that a list
visits a map's entries once each, in some order.
-/

namespace Steel

open List

/-- A finite map with no observable order. -/
abbrev HashMap (K V : Type) := Finmap (fun _ : K => V)

namespace HashMap

variable {K V : Type} [DecidableEq K]

theorem lookup_insert_ite (m : HashMap K V) (k k' : K) (v : V) :
    (m.insert k v).lookup k' = if k' = k then some v else m.lookup k' := by
  by_cases heq : k' = k
  · subst heq
    simp
  · rw [if_neg heq, Finmap.lookup_insert_of_ne _ heq]

theorem lookup_erase_ite (m : HashMap K V) (k k' : K) :
    (m.erase k).lookup k' = if k' = k then none else m.lookup k' := by
  by_cases heq : k' = k
  · subst heq
    simp
  · rw [if_neg heq, Finmap.lookup_erase_ne heq]

/-- `order` is one iteration over `m`: every entry once, in any order. -/
structure Iterates (m : HashMap K V) (order : List (K × V)) : Prop where
  nodup : (order.map Prod.fst).Nodup
  mem_iff : ∀ k v, (k, v) ∈ order ↔ m.lookup k = some v

theorem exists_iterates (m : HashMap K V) : ∃ order, Iterates m order := by
  induction m using Finmap.induction_on with
  | H a =>
    have hkeys : (a.entries.map fun e => (e.1, e.2)).map Prod.fst = a.entries.keys := by
      simp [keys, Function.comp_def]
    refine ⟨a.entries.map fun e => (e.1, e.2), ?_, ?_⟩
    · rw [hkeys]
      exact a.nodupKeys
    · intro k v
      rw [Finmap.lookup_toFinmap, AList.lookup, ← Option.mem_def,
        mem_dlookup_iff a.nodupKeys]
      constructor
      · intro hmem
        obtain ⟨e, he, heq⟩ := mem_map.mp hmem
        rcases e with ⟨k', v'⟩
        simp only [Prod.mk.injEq] at heq
        obtain ⟨rfl, rfl⟩ := heq
        exact he
      · intro hmem
        exact mem_map.mpr ⟨⟨k, v⟩, hmem, rfl⟩

def mapValues {W : Type} (f : V → W) (m : HashMap K V) : HashMap K W :=
  { entries := m.entries.map fun e => ⟨e.1, f e.2⟩
    nodupKeys := by
      rw [← Multiset.nodup_keys]
      have hkeys : Multiset.keys (m.entries.map fun e => (⟨e.1, f e.2⟩ : (_ : K) × W)) =
          Multiset.keys m.entries := by
        simp [Multiset.keys]
      rw [hkeys]
      exact m.nodupKeys.nodup_keys }

variable {W : Type}

theorem lookup_mapValues (f : V → W) (m : HashMap K V) (k : K) :
    (m.mapValues f).lookup k = (m.lookup k).map f := by
  ext w
  rw [Finmap.lookup_eq_some_iff]
  simp only [mapValues, Multiset.mem_map, Option.map_eq_some_iff]
  constructor
  · rintro ⟨⟨k', v⟩, hmem, heq⟩
    obtain ⟨rfl, hw⟩ := Sigma.mk.inj_iff.mp heq
    exact ⟨v, Finmap.lookup_eq_some_iff.mpr hmem, eq_of_heq hw⟩
  · rintro ⟨v, hv, rfl⟩
    exact ⟨⟨k, v⟩, Finmap.lookup_eq_some_iff.mp hv, rfl⟩

/-- One way of visiting the entries of every map, as the hasher happens to order them. -/
structure IterationOrder (K V : Type) [DecidableEq K] where
  toList : HashMap K V → List (K × V)
  iterates : ∀ m, Iterates m (toList m)

instance : Nonempty (IterationOrder K V) :=
  ⟨⟨fun m => (exists_iterates m).choose, fun m => (exists_iterates m).choose_spec⟩⟩

/-! ### Maps from lists of entries -/

omit [DecidableEq K] in
theorem list_lookup_eq_some_iff [BEq K] [LawfulBEq K] {entries : List (K × V)}
    (hnodup : (entries.map Prod.fst).Nodup) {k : K} {v : V} :
    entries.lookup k = some v ↔ (k, v) ∈ entries := by
  induction entries with
  | nil => simp
  | cons entry entries ih =>
    obtain ⟨k', v'⟩ := entry
    rw [map_cons, nodup_cons] at hnodup
    rw [lookup_cons, mem_cons, Prod.mk.injEq]
    cases heq : k == k' with
    | true =>
      obtain rfl := eq_of_beq heq
      have hrest : (k, v) ∉ entries := fun hmem =>
        hnodup.1 (mem_map.mpr ⟨(k, v), hmem, rfl⟩)
      simp [hrest, eq_comm]
    | false => simp [beq_eq_false_iff_ne.mp heq, ih hnodup.2]

end HashMap

end Steel
