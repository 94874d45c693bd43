import Mathlib.Data.List.Flatten
import Mathlib.Data.List.Infix
import StarlarkLint.Proofs.Node.Slots

/-!
# Places in trees

A node of a tree is found from the root by the slots that one goes through.  Written down, these
steps are its place, and a place says apart two nodes that look alike.  The places of a tree in
lexicographic order are met in the order of a walk: a node comes before what is below it, and what
is below a slot comes before what is below a later one.

## Main definitions

* `Node.Place`, `Node.at?` — places, and what stands in a place.
* `Node.emptied` — a node with its slots emptied: what it is apart from what is below it.
* `Node.Enumerates` — a list of places that goes through a tree.
* `Node.Place.above`, `Node.sightAt` — the places above a place, and what there is to see from it.

## Main results

* `Node.at?_append` — to go on from a place is to go to a place further down.
* `Node.exists_enumerates_walk` — a walk goes through the places of a tree in their order, and has
  the nodes above each of them at hand.
-/

namespace StarlarkLint.Node

/-- The way from the root of a tree to a place in it: which slot to go to, each time. -/
abbrev Place := List ℕ

/-- What stands in a place of a tree, if the tree reaches that far. -/
def at? : Node → Place → Option Node
  | n, [] => some n
  | n, i :: p => n.slots[i]?.bind fun m => at? m p

@[simp] theorem at?_nil (n : Node) : n.at? [] = some n := by
  rw [at?]

theorem at?_cons (n : Node) (i : ℕ) (p : Place) :
    n.at? (i :: p) = n.slots[i]?.bind fun m => m.at? p := by
  rw [at?]

/-- To go on from a place is to go to a place further down. -/
theorem at?_append (n : Node) (p q : Place) :
    n.at? (p ++ q) = (n.at? p).bind fun m => m.at? q := by
  induction p generalizing n with
  | nil => rw [List.nil_append, at?_nil, Option.bind_some]
  | cons i p ih =>
    rw [List.cons_append, at?_cons, at?_cons, Option.bind_assoc]
    simp only [ih]

/-- A node with its slots emptied: its kind, its span and its own data. -/
def emptied (n : Node) : Node := n.mapSlots fun _ => hole

@[simp] theorem emptied_mapSlots (g : Node → Node) (n : Node) :
    (n.mapSlots g).emptied = n.emptied := by
  cases n <;> simp [emptied, mapSlots, Function.comp_def]

/-! ### The places of a tree in order -/

/-- Places that go through the nodes of a tree in the order of a walk. -/
structure Enumerates (n : Node) (ps : List Place) : Prop where
  /-- The places are in order, so that none occurs twice. -/
  ordered : ps.Pairwise (· < ·)
  /-- They hold the nodes that a walk meets. -/
  map_at? : ps.map n.at? = n.nodes.map some
  /-- There is no other place that holds a node. -/
  complete : ∀ p m, n.at? p = some m → m ≠ hole → p ∈ ps

theorem enumerates_hole : hole.Enumerates [] where
  ordered := .nil
  map_at? := rfl
  complete := by
    intro p m hm hne
    cases p with
    | nil =>
      rw [at?_nil, Option.some.injEq] at hm
      exact absurd hm.symm hne
    | cons i p =>
      rw [at?_cons, slots, List.getElem?_nil, Option.bind_none] at hm
      cases hm

/-- The root comes first, and then the places in its slots, slot by slot. -/
theorem enumerates_cons {n : Node} (hn : n ≠ hole) {below : Node → List Place}
    (h : ∀ m ∈ n.slots, m.Enumerates (below m)) :
    n.Enumerates ([] :: n.slots.zipIdx.flatMap fun s => (below s.1).map (s.2 :: ·)) where
  ordered := by
    refine .cons ?_ (List.pairwise_flatMap.mpr ⟨?_, ?_⟩)
    · simp only [List.mem_flatMap, List.mem_map]
      rintro _ ⟨s, -, p, -, rfl⟩
      exact List.nil_lt_cons _ _
    · -- in one slot: the places are in order there
      intro s hs
      refine List.pairwise_map.mpr ((h s.1 (List.fst_mem_of_mem_zipIdx hs)).ordered.imp ?_)
      intro p q hpq
      exact List.cons_lt_cons_iff.mpr (.inr ⟨rfl, hpq⟩)
    · -- in two slots: the first step tells them apart
      have hindices : (n.slots.zipIdx.map Prod.snd).Pairwise (· < ·) := by
        rw [List.zipIdx_map_snd]
        exact List.pairwise_lt_range'
      refine (List.pairwise_map.mp hindices).imp ?_
      intro s t hst p hp q hq
      obtain ⟨p, -, rfl⟩ := List.mem_map.mp hp
      obtain ⟨q, -, rfl⟩ := List.mem_map.mp hq
      exact List.cons_lt_cons_iff.mpr (.inl hst)
  map_at? := by
    have hslot : ∀ s ∈ n.slots.zipIdx,
        ((below s.1).map (s.2 :: ·)).map n.at? = s.1.nodes.map some := by
      intro s hs
      rw [← (h s.1 (List.fst_mem_of_mem_zipIdx hs)).map_at?, List.map_map]
      refine List.map_congr_left fun p _ => ?_
      rw [Function.comp_apply, at?_cons, List.mem_zipIdx_iff_getElem?.mp hs, Option.bind_some]
    calc ([] :: n.slots.zipIdx.flatMap fun s => (below s.1).map (s.2 :: ·)).map n.at?
      _ = some n :: n.slots.zipIdx.flatMap fun s => s.1.nodes.map some := by
          rw [List.map_cons, at?_nil, List.map_flatMap, List.flatMap_congr hslot]
      _ = some n :: (n.slots.zipIdx.map Prod.fst).flatMap fun m => m.nodes.map some := by
          rw [List.flatMap_map]
      _ = n.nodes.map some := by
          rw [List.zipIdx_map_fst, nodes_eq hn, List.map_cons, List.map_flatMap]
  complete := by
    intro p m hm hne
    cases p with
    | nil => exact List.mem_cons_self
    | cons i p =>
      rw [at?_cons, Option.bind_eq_some_iff] at hm
      obtain ⟨k, hk, hm⟩ := hm
      have hbelow := (h k (List.mem_of_getElem? hk)).complete p m hm hne
      refine List.mem_cons_of_mem _ (List.mem_flatMap.mpr ⟨(k, i), ?_, ?_⟩)
      · exact List.mem_zipIdx_iff_getElem?.mpr hk
      · exact List.mem_map_of_mem hbelow

/-! ### What a walk sees -/

/-- The places above a place, the root first. -/
def Place.above (p : Place) : List Place := p.inits.dropLast

theorem Place.above_cons (i : ℕ) (p : Place) :
    above (i :: p) = [] :: (above p).map (i :: ·) := by
  have hinits : p.inits.map (i :: ·) ≠ [] := by
    cases p <;> simp
  rw [above, above, List.inits_cons, List.dropLast_cons_of_ne_nil hinits, List.map_dropLast]

/-- What there is to see in a place of a tree that stands below the given nodes: what stands there,
and what stands above it. -/
def sightAt (path : List Node) (n : Node) (p : Place) : Option Node × List (Option Node) :=
  (n.at? p, path.map some ++ p.above.map n.at?)

/-- What there is to see on a visit. -/
def sightOf (visit : Visit) : Option Node × List (Option Node) :=
  (some visit.1, visit.2.map some)

theorem sightAt_nil (path : List Node) (n : Node) : sightAt path n [] = sightOf (n, path) := by
  rw [sightAt, sightOf, at?_nil]
  exact congrArg (Prod.mk _) (List.append_nil _)

/-- A place below a slot is seen from the node as it is seen from the slot. -/
theorem sightAt_cons {n m : Node} {i : ℕ} (h : n.slots[i]? = some m) (path : List Node)
    (p : Place) : sightAt path n (i :: p) = sightAt (path ++ [n]) m p := by
  have hat : ∀ q, n.at? (i :: q) = m.at? q := fun q => by rw [at?_cons, h, Option.bind_some]
  rw [sightAt, sightAt, hat, Place.above_cons, List.map_cons, at?_nil, List.map_map,
    List.map_append, List.map_singleton, List.append_assoc, List.singleton_append]
  simp only [Function.comp_def, hat]

/-- A walk sees what there is to see in the places of a tree, in their order. -/
theorem exists_enumerates_walk (n : Node) : ∃ ps, n.Enumerates ps ∧
    ∀ path, (walkFrom path n).map sightOf = ps.map (sightAt path n) := by
  induction n using induction_slots with
  | h n ih =>
    by_cases hn : n = hole
    · subst hn
      exact ⟨[], enumerates_hole, fun _ => rfl⟩
    have hbelow : ∀ m, ∃ ps, m ∈ n.slots → m.Enumerates ps ∧
        ∀ path, (walkFrom path m).map sightOf = ps.map (sightAt path m) := by
      intro m
      by_cases hm : m ∈ n.slots
      · obtain ⟨ps, hps⟩ := ih m hm
        exact ⟨ps, fun _ => hps⟩
      · exact ⟨[], fun h => absurd h hm⟩
    choose below hbelow using hbelow
    refine ⟨_, enumerates_cons hn fun m hm => (hbelow m hm).1, fun path => ?_⟩
    have hslot : ∀ s ∈ n.slots.zipIdx, ((below s.1).map (s.2 :: ·)).map (sightAt path n) =
        (walkFrom (path ++ [n]) s.1).map sightOf := by
      intro s hs
      rw [(hbelow s.1 (List.fst_mem_of_mem_zipIdx hs)).2, List.map_map]
      exact List.map_congr_left fun p _ => sightAt_cons (List.mem_zipIdx_iff_getElem?.mp hs) path p
    calc (walkFrom path n).map sightOf
      _ = sightOf (n, path) :: (n.slots.zipIdx.map Prod.fst).flatMap fun m =>
            (walkFrom (path ++ [n]) m).map sightOf := by
          rw [List.zipIdx_map_fst, walkFrom_eq hn, List.map_cons, List.map_flatMap]
      _ = sightAt path n [] :: n.slots.zipIdx.flatMap fun s =>
            ((below s.1).map (s.2 :: ·)).map (sightAt path n) := by
          rw [sightAt_nil, List.flatMap_map, List.flatMap_congr hslot]
      _ = _ := by rw [List.map_cons, List.map_flatMap]

/-- **The nodes of a tree are those of its places in their order.** -/
theorem exists_enumerates (n : Node) : ∃ ps, n.Enumerates ps := by
  obtain ⟨ps, hps, -⟩ := exists_enumerates_walk n
  exact ⟨ps, hps⟩

variable {n : Node} {ps : List Place}

/-- The places whose nodes have a property hold the nodes of a walk that have it. -/
theorem Enumerates.map_at?_filter (h : n.Enumerates ps) (q : Node → Bool) :
    (ps.filter fun p => (n.at? p).any q).map n.at? = (n.nodes.filter q).map some := by
  calc (ps.filter fun p => (n.at? p).any q).map n.at?
    _ = (ps.map n.at?).filter (·.any q) := by
        rw [List.filter_map]
        rfl
    _ = (n.nodes.filter q).map some := by
        rw [h.map_at?, List.filter_map]
        rfl

/-- The places that go through a tree are those that hold a node. -/
theorem Enumerates.mem_iff (h : n.Enumerates ps) {p : Place} :
    p ∈ ps ↔ ∃ m, n.at? p = some m ∧ m ≠ hole := by
  constructor
  · intro hp
    have hat : n.at? p ∈ ps.map n.at? := List.mem_map_of_mem hp
    rw [h.map_at?, List.mem_map] at hat
    obtain ⟨m, hm, heq⟩ := hat
    exact ⟨m, heq.symm, ne_hole_of_mem_nodes hm⟩
  · rintro ⟨m, hm, hne⟩
    exact h.complete p m hm hne

end StarlarkLint.Node
