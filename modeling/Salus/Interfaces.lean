import Salus.PageTable

/-!
# The other collaborators of `vm_pages.rs`

The remaining interfaces the core consumes (spec §6), none of whose source is part of this
development: `PageVec`, the `DataMeasure` trait, and the memory `HypPageAlloc` hands out at
boot, each modelled from the spec.
-/

namespace Salus

/-- Modelled from the spec: the error of `PageVec::try_reserve`. -/
inductive TryReserveError
  | capacityOverflow
  deriving DecidableEq, Repr

/-- Modelled from the spec: `PageVec<Page4k>`, a vector stored in the pages of `storage`;
`items` lists its elements, the last pushed first. -/
structure PageVec where
  storage : SequentialPages PageSize4k
  items : List Page4k

namespace PageVec

/-- `PageVec::from(SequentialPages)`: an empty vector stored in the given pages. -/
def ofSeq (s : SequentialPages PageSize4k) : PageVec := ⟨s, []⟩

/-- The number of `Page4k`s, eight bytes each, that the storage pages hold. -/
def capacity (v : PageVec) : Nat := v.storage.count * (4096 / 8)

/-- `try_reserve(n)`: room for `n` more elements without new storage. -/
def tryReserve (v : PageVec) (n : Nat) : Except TryReserveError Unit :=
  if v.items.length + n ≤ v.capacity then .ok () else .error .capacityOverflow

/-- `push`. -/
def push (v : PageVec) (p : Page4k) : PageVec := { v with items := p :: v.items }

/-- `pop`. -/
def pop (v : PageVec) : Option Page4k × PageVec := (v.items.head?, { v with items := v.items.tail })

end PageVec

/-- Modelled from the spec: the `DataMeasure` trait; `Inhabited` plays the part of `Default`. -/
class DataMeasure (D : Type) where
  addPage : D → Nat → Page4k → D

/-- The measurement that records every `add_page` call, in order. -/
structure PageLog where
  entries : List (Nat × Page4k)
  deriving DecidableEq

instance : Inhabited PageLog := ⟨⟨[]⟩⟩

instance : DataMeasure PageLog := ⟨fun d gpa p => ⟨d.entries ++ [(gpa, p)]⟩⟩

/-- Modelled from the spec: the memory `HypPageAlloc` hands out at boot, as `from_hyp_mem`
takes it. `rootPages` is what `take_pages_with_alignment(4, TOP_LEVEL_ALIGN)` returns,
`ptePages` what `take_pages(num_pte_pages)` returns, and `hostPages` what `PageState::from`
hands back for the host; the pages are distinct and owned by the hypervisor alone. `contents`
is memory at boot, and `maxGuests`, `maxOwners` the limits of the `PhysPages` built. -/
structure HypMem where
  rootPages : List Page4k
  ptePages : List Page4k
  hostPages : List Page4k
  nodup : (rootPages ++ ptePages ++ hostPages).Nodup
  contents : Memory
  maxGuests : Nat
  maxOwners : Nat

/-- Every page `HypPageAlloc` hands out. -/
def HypMem.pages (m : HypMem) : List Page4k := m.rootPages ++ m.ptePages ++ m.hostPages

/-- Modelled from the spec: the `PhysPages` that `PageState::from` builds, in which every page
handed out has the hypervisor as its sole owner. -/
def HypMem.physPages (m : HypMem) : PhysPages where
  owners a := if a ∈ m.pages.map Page.bits then [PageOwnerId.hypervisor] else []
  activeGuests := []
  nextId := 2
  maxGuests := m.maxGuests
  maxOwners := m.maxOwners

end Salus
