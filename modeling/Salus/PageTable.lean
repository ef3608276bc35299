import Salus.SequentialPages
import Salus.PhysPages

/-!
# The platform page table

`PlatformPageTable` and its sv48x4 implementation live in the `riscv_page_tables` crate, whose
source is not part of this development; the table is modelled from the spec (§3, §4.3) for the
realised platform. A table has a root of four pages aligned to `TOP_LEVEL_ALIGN` (16 KiB), the
interior nodes linked below it, and its 4 KiB leaf entries, each valid or invalidated. Only
4 KiB leaves exist (large pages are a non-goal of the spec), so every `UnmappedPage` is a
`Page4k` and `unwrap_4k`/`ok4k_or` always succeed.

`invalidate_range` and `unmap_range` return lazy iterators: each call of `next` visits the
remaining slots of the range in ascending order, skips holes, and invalidates (resp. removes)
the entry it yields. `invalidate_range` yields only valid entries; `unmap_range` yields every
entry, valid or invalidated.
-/

namespace Salus

/-- sv48x4 `TOP_LEVEL_ALIGN`. -/
def topLevelAlign : Nat := 16 * 1024

/-- Modelled from the spec: `PageTableError`. -/
inductive PageTableError
  | badRoot
  | unaligned
  | noPte
  | alreadyMapped
  deriving DecidableEq, Repr

/-- A leaf entry: the page mapped there, and whether the mapping is valid. -/
structure Pte where
  page : Page4k
  valid : Bool
  deriving DecidableEq

/-- An interior node below the root: its level (2, 1 or 0) and the GPA bits above the region it
covers. -/
abbrev NodeKey := Nat × Nat

/-- Modelled from the spec: an sv48x4 `PlatformPageTable` of one owner. -/
structure PageTable where
  root : SequentialPages PageSize4k
  owner : PageOwnerId
  nodes : List (NodeKey × Page4k)
  entries : List (Nat × Pte)

namespace PageTable

/-- Modelled from the spec: `T::new`, which accepts exactly four root pages aligned to
`TOP_LEVEL_ALIGN`. -/
def new (root : SequentialPages PageSize4k) (owner : PageOwnerId) :
    Except PageTableError PageTable :=
  if root.count = 4 ∧ root.base % topLevelAlign = 0 then .ok ⟨root, owner, [], []⟩
  else .error .badRoot

theorem new_eq_ok {root : SequentialPages PageSize4k} {owner : PageOwnerId} {t : PageTable}
    (h : new root owner = .ok t) : t = ⟨root, owner, [], []⟩ := by
  unfold new at h
  split at h <;> cases h
  rfl

/-- `page_owner_id()`. -/
def pageOwnerId (t : PageTable) : PageOwnerId := t.owner

/-- The leaf entry at `gpa`. -/
def entry (t : PageTable) (gpa : Nat) : Option Pte := t.entries.lookup gpa

/-- The interior nodes a walk to `gpa` passes below the root, top down: the sv48x4 levels 2, 1
and 0 cover `2 ^ 39`, `2 ^ 30` and `2 ^ 21` bytes. -/
def walkKeys (gpa : Nat) : List NodeKey := [(2, gpa / 2 ^ 39), (1, gpa / 2 ^ 30), (0, gpa / 2 ^ 21)]

/-- Links the missing nodes of a walk, asking the PTE supplier (the head of `supply`) for each
one; when the supplier runs out, the nodes linked so far stay. -/
def linkNodes : List NodeKey → List (NodeKey × Page4k) → List Page4k →
    Bool × List (NodeKey × Page4k) × List Page4k
  | [], nodes, supply => (true, nodes, supply)
  | k :: ks, nodes, supply =>
    if (nodes.lookup k).isSome then linkNodes ks nodes supply
    else
      match supply with
      | [] => (false, nodes, [])
      | p :: supply => linkNodes ks ((k, p) :: nodes) supply

/-- Modelled from the spec: `map_page_4k(gpa, page, pte_supplier)`. The supplier hands out the
pages of `supply` from its head; what it has not handed out is returned. -/
def mapPage4k (t : PageTable) (gpa : Nat) (page : Page4k) (supply : List Page4k) :
    Except PageTableError Unit × PageTable × List Page4k :=
  if gpa % 4096 ≠ 0 then (.error .unaligned, t, supply)
  else
    match linkNodes (walkKeys gpa) t.nodes supply with
    | (false, nodes, supply) => (.error .noPte, { t with nodes }, supply)
    | (true, nodes, supply) =>
      if (t.entry gpa).isSome then (.error .alreadyMapped, { t with nodes }, supply)
      else (.ok (), { t with nodes, entries := (gpa, ⟨page, true⟩) :: t.entries }, supply)

/-- The 4 KiB slots of a range, in ascending order. -/
def slots (gpa count : Nat) : List Nat := (List.range count).map (gpa + · * 4096)

/-- Modelled from the spec: `invalidate_range(gpa, count)`. `None` unless `gpa` is
`TOP_LEVEL_ALIGN`-aligned and the range fits in the address space; otherwise the iterator,
given by the slots it has left to visit. -/
def invalidateRange (gpa : PageAddr PageSize4k) (count : Nat) : Option (List Nat) :=
  if gpa.bits % topLevelAlign = 0 ∧ gpa.bits + count * 4096 ≤ 2 ^ 64 then
    some (slots gpa.bits count)
  else none

theorem invalidateRange_of_aligned {gpa : PageAddr PageSize4k} {count : Nat}
    (ha : gpa.bits % topLevelAlign = 0) (hr : gpa.bits + count * 4096 ≤ 2 ^ 64) :
    invalidateRange gpa count = some (slots gpa.bits count) :=
  if_pos ⟨ha, hr⟩

/-- Modelled from the spec: `unmap_range(gpa, count)`, with the same range check. -/
def unmapRange (gpa : PageAddr PageSize4k) (count : Nat) : Option (List Nat) :=
  invalidateRange gpa count

/-- The table with the entry at `gpa` marked invalid. -/
def invalidate (t : PageTable) (gpa : Nat) : PageTable :=
  { t with entries := t.entries.map fun e => if e.1 = gpa then (e.1, { e.2 with valid := false })
                                             else e }

/-- The table without the entry at `gpa`. -/
def unmap (t : PageTable) (gpa : Nat) : PageTable :=
  { t with entries := t.entries.filter fun e => e.1 ≠ gpa }

@[simp] theorem invalidate_root (t : PageTable) (gpa : Nat) : (t.invalidate gpa).root = t.root :=
  rfl

@[simp] theorem invalidate_owner (t : PageTable) (gpa : Nat) :
    (t.invalidate gpa).owner = t.owner := rfl

@[simp] theorem invalidate_nodes (t : PageTable) (gpa : Nat) :
    (t.invalidate gpa).nodes = t.nodes := rfl

@[simp] theorem unmap_root (t : PageTable) (gpa : Nat) : (t.unmap gpa).root = t.root := rfl

@[simp] theorem unmap_owner (t : PageTable) (gpa : Nat) : (t.unmap gpa).owner = t.owner := rfl

@[simp] theorem unmap_nodes (t : PageTable) (gpa : Nat) : (t.unmap gpa).nodes = t.nodes := rfl

/-- The invalidate iterator at one slot: a valid entry is invalidated and its page yielded. -/
def invalidateSlot (t : PageTable) (gpa : Nat) : Option Page4k × PageTable :=
  match t.entry gpa with
  | some ⟨p, true⟩ => (some p, t.invalidate gpa)
  | _ => (none, t)

/-- The unmap iterator at one slot: an entry, valid or not, is removed and its page yielded. -/
def unmapSlot (t : PageTable) (gpa : Nat) : Option Page4k × PageTable :=
  match t.entry gpa with
  | some e => (some e.page, t.unmap gpa)
  | none => (none, t)

theorem invalidateSlot_eq_some {t t' : PageTable} {gpa : Nat} {p : Page4k}
    (h : t.invalidateSlot gpa = (some p, t')) :
    t.entry gpa = some ⟨p, true⟩ ∧ t' = t.invalidate gpa := by
  unfold invalidateSlot at h
  split at h <;> cases h
  exact ⟨‹_›, rfl⟩

theorem invalidateSlot_eq_none {t t' : PageTable} {gpa : Nat}
    (h : t.invalidateSlot gpa = (none, t')) : t' = t := by
  unfold invalidateSlot at h
  split at h <;> cases h
  rfl

theorem unmapSlot_eq_some {t t' : PageTable} {gpa : Nat} {p : Page4k}
    (h : t.unmapSlot gpa = (some p, t')) :
    ∃ e, t.entry gpa = some e ∧ p = e.page ∧ t' = t.unmap gpa := by
  unfold unmapSlot at h
  split at h <;> cases h
  exact ⟨_, ‹_›, rfl, rfl⟩

theorem unmapSlot_eq_none {t t' : PageTable} {gpa : Nat} (h : t.unmapSlot gpa = (none, t')) :
    t' = t := by
  unfold unmapSlot at h
  split at h <;> cases h
  rfl

/-- `next` of the invalidate iterator: the first remaining slot that yields a page. -/
def invalidateNext (t : PageTable) : List Nat → Option (Page4k × List Nat) × PageTable
  | [] => (none, t)
  | gpa :: rest =>
    match t.invalidateSlot gpa with
    | (some p, t) => (some (p, rest), t)
    | (none, t) => invalidateNext t rest

theorem invalidateNext_eq_none {t t' : PageTable} :
    ∀ {slots : List Nat}, t.invalidateNext slots = (none, t') → t' = t
  | [], h => by cases h; rfl
  | g :: rest, h => by
    simp only [invalidateNext] at h
    split at h
    · cases h
    · rename_i t₁ heq
      rw [invalidateSlot_eq_none heq] at h
      exact invalidateNext_eq_none h

theorem invalidateNext_eq_some {t t' : PageTable} {p : Page4k} {rest : List Nat} :
    ∀ {slots : List Nat}, t.invalidateNext slots = (some (p, rest), t') →
      ∃ g, t.entry g = some ⟨p, true⟩ ∧ t' = t.invalidate g
  | [], h => by cases h
  | g :: rest, h => by
    simp only [invalidateNext] at h
    split at h
    · rename_i p₁ t₁ heq
      cases h
      exact ⟨g, invalidateSlot_eq_some heq⟩
    · rename_i t₁ heq
      rw [invalidateSlot_eq_none heq] at h
      exact invalidateNext_eq_some h

end PageTable

end Salus
