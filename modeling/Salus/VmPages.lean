import Salus.Interfaces

/-!
# `vm_pages.rs`

Model of `src/vm_pages.rs`: `VmPages`, the host and guest root builders, and the operations
that move pages between a VM and a child it is building. Each `&mut` receiver and argument is
passed and returned explicitly, together with the `Machine`: the `PhysPages` state every handle
refers to, and physical memory, which `CleanPage::from` zeroes. Mutations made before an early
`return Err(..)` or `?` persist in the returned state. Functions that can panic (`unwrap`,
`assert_eq!`) return an `Option`, `none` standing for the panic.

The iterators of the source are lazy: a page is invalidated or unmapped only when the loop asks
for it, so the loops below walk the slots of the range one by one and stop at the first
error.
-/

namespace Salus

/-- `Error` (`vm_pages.rs:15-27`). -/
inductive Error
  | guestId (e : PageTrackingError)
  | invalidRange
  | insufficientPtePageStorage
  | mapping4kPage (e : PageTableError)
  | non4kPteEntry
  | pageFaultHandling
  | settingOwner (e : PageTrackingError)
  | unalignedVmPages (addr : PageAddr PageSize4k)
  | unownedPage (addr : PageAddr PageSize4k)
  deriving DecidableEq

/-- The state all `VmPages` share: `PhysPages` and physical memory. -/
structure Machine where
  phys : PhysPages
  mem : Memory

/-- `VmPages<T, D>` (`vm_pages.rs:38-41`). -/
structure VmPages (D : Type) where
  root : PageTable
  measurement : D

/-- `HostRootPages<T, D>` (`vm_pages.rs:183-186`). -/
structure HostRootPages (D : Type) where
  inner : VmPages D

/-- `HostRootPages::into_inner` (`vm_pages.rs:188-192`). -/
def HostRootPages.intoInner {D : Type} (h : HostRootPages D) : VmPages D := h.inner

/-- `HostRootBuilder<T, D>` (`vm_pages.rs:198-202`); `ptePages` is the `PageRange` the PTE
supplier takes pages from, first page first. -/
structure HostRootBuilder (D : Type) where
  root : PageTable
  ptePages : List Page4k
  measurement : D

/-- `GuestRootBuilder<T, D>` (`vm_pages.rs:295-300`). -/
structure GuestRootBuilder (D : Type) where
  root : PageTable
  measurement : D
  ptePages : PageVec

/-- `AlignedPageAddr4k::iter_from`, modelled from its use: the successive 4 KiB page addresses
from `to_addr` up to the last one below `2 ^ 64`. The iterator is the address it yields
next. -/
def iterFromNext (next : Option Nat) : Option (Nat × Option Nat) :=
  next.map fun a => (a, checkedAdd a 4096)

variable {D : Type} [Inhabited D] [DataMeasure D]

/-! ## `GuestRootBuilder` -/

namespace GuestRootBuilder

/-- `GuestRootBuilder::page_owner_id` (`vm_pages.rs:303-306`). -/
def pageOwnerId (b : GuestRootBuilder D) : PageOwnerId := b.root.pageOwnerId

/-- `GuestRootBuilder::new` (`vm_pages.rs:310-318`): `pte_page` becomes the storage of an
empty PTE pool. -/
def new (root : PageTable) (ptePage : Page4k) : GuestRootBuilder D :=
  ⟨root, default, PageVec.ofSeq (SequentialPages.ofPage ptePage)⟩

/-- `GuestRootBuilder::add_pte_page` (`vm_pages.rs:320-328`); on failure the page is
dropped. -/
def addPtePage (b : GuestRootBuilder D) (page : Page4k) :
    Except Error Unit × GuestRootBuilder D :=
  match b.ptePages.tryReserve 1 with
  | .error _ => (.error .insufficientPtePageStorage, b)
  | .ok () => (.ok (), { b with ptePages := b.ptePages.push page })

omit [Inhabited D] [DataMeasure D] in
/-- A failed `add_pte_page` drops its page; a successful one pushes it. -/
theorem addPtePage_snd (b : GuestRootBuilder D) (page : Page4k) :
    (b.addPtePage page).2 = b ∨ (b.addPtePage page).2 = { b with ptePages := b.ptePages.push page } := by
  unfold addPtePage
  split
  exacts [.inl rfl, .inr rfl]

omit [Inhabited D] [DataMeasure D] in
@[simp] theorem addPtePage_root (b : GuestRootBuilder D) (page : Page4k) :
    (b.addPtePage page).2.root = b.root := by
  rcases addPtePage_snd b page with h | h <;> rw [h]

/-- `map_page_4k` with the pool's `pop` as the PTE supplier. -/
def mapPage (b : GuestRootBuilder D) (gpa : Nat) (page : Page4k) :
    Except Error Unit × GuestRootBuilder D :=
  let (r, root, items) := b.root.mapPage4k gpa page b.ptePages.items
  (r.mapError .mapping4kPage, { b with root, ptePages := { b.ptePages with items } })

omit [Inhabited D] [DataMeasure D] in
@[simp] theorem mapPage_root (b : GuestRootBuilder D) (gpa : Nat) (page : Page4k) :
    (b.mapPage gpa page).2.root = (b.root.mapPage4k gpa page b.ptePages.items).2.1 := rfl

omit [Inhabited D] [DataMeasure D] in
@[simp] theorem mapPage_ptePages (b : GuestRootBuilder D) (gpa : Nat) (page : Page4k) :
    (b.mapPage gpa page).2.ptePages =
      { b.ptePages with items := (b.root.mapPage4k gpa page b.ptePages.items).2.2 } := rfl

omit [Inhabited D] [DataMeasure D] in
@[simp] theorem mapPage_measurement (b : GuestRootBuilder D) (gpa : Nat) (page : Page4k) :
    (b.mapPage gpa page).2.measurement = b.measurement := rfl

/-- `GuestRootBuilder::add_data_page` (`vm_pages.rs:330-337`): measure, then map. -/
def addDataPage (b : GuestRootBuilder D) (gpa : Nat) (page : Page4k) :
    Except Error Unit × GuestRootBuilder D :=
  { b with measurement := DataMeasure.addPage b.measurement gpa page }.mapPage gpa page

/-- `GuestRootBuilder::add_zero_page` (`vm_pages.rs:339-345`). -/
def addZeroPage (b : GuestRootBuilder D) (gpa : Nat) (page : Page4k) :
    Except Error Unit × GuestRootBuilder D :=
  b.mapPage gpa page

/-- `GuestRootBuilder::create_pages` (`vm_pages.rs:347-353`); the PTE pool is dropped. -/
def createPages (b : GuestRootBuilder D) : VmPages D := ⟨b.root, b.measurement⟩

omit [Inhabited D] [DataMeasure D] in
@[simp] theorem createPages_root (b : GuestRootBuilder D) : b.createPages.root = b.root := rfl

end GuestRootBuilder

/-! ## `HostRootBuilder` -/

namespace HostRootBuilder

/-- `HostRootBuilder::from_hyp_mem` (`vm_pages.rs:206-227`): the host's pages and the builder,
with the `PhysPages` it creates. -/
def fromHypMem (m : HypMem) : Option (List Page4k × HostRootBuilder D × Machine) := do
  let rootTablePages ← (fromPages m.rootPages).toOption
  let root ← (PageTable.new rootTablePages .host).toOption
  some (m.hostPages, ⟨root, m.ptePages, default⟩, ⟨m.physPages, m.contents⟩)

/-- One page of the loops of `add_4k_data_pages` and `add_4k_pages` after its measurement:
the `assert_eq!` on the low GPA bits, `set_page_owner(..).unwrap()` and
`map_page_4k(..).unwrap()`. -/
def mapHostPage (vmAddr : Nat) (page : Page4k) (root : PageTable) (ptePages : List Page4k)
    (phys : PhysPages) : Option (PageTable × List Page4k × PhysPages) := do
  if vmAddr &&& (topLevelAlign - 1) ≠ page.bits &&& (topLevelAlign - 1) then none
  else
    let phys ← (phys.setPageOwner page.addr root.pageOwnerId).toOption
    match root.mapPage4k vmAddr page ptePages with
    | (.ok (), root, ptePages) => some (root, ptePages, phys)
    | (.error _, _, _) => none

theorem mapHostPage_eq_some {vmAddr : Nat} {page : Page4k} {root root' : PageTable}
    {ptePages ptePages' : List Page4k} {phys phys' : PhysPages}
    (h : mapHostPage vmAddr page root ptePages phys = some (root', ptePages', phys')) :
    phys.setPageOwner page.addr root.pageOwnerId = .ok phys' ∧
      (root.mapPage4k vmAddr page ptePages).2 = (root', ptePages') := by
  unfold mapHostPage at h
  split at h
  · cases h
  rcases hs : phys.setPageOwner page.addr root.pageOwnerId with e | phys₁ <;>
    simp only [hs, Except.toOption, Option.bind_eq_bind, Option.none_bind, Option.some_bind,
      reduceCtorEq] at h
  split at h
  · rename_i heq
    cases h
    exact ⟨rfl, by rw [heq]⟩
  · cases h

/-- The loop of `add_4k_data_pages` (`vm_pages.rs:236-247`) over `pages.zip(iter_from)`. -/
def add4kDataPagesLoop : List Page4k → Option Nat → D → PageTable → List Page4k → PhysPages →
    Option (D × PageTable × List Page4k × PhysPages)
  | [], _, measurement, root, ptePages, phys => some (measurement, root, ptePages, phys)
  | page :: pages, vmAddr, measurement, root, ptePages, phys =>
    match iterFromNext vmAddr with
    | none => some (measurement, root, ptePages, phys)
    | some (vmAddr, next) => do
      let measurement := DataMeasure.addPage measurement vmAddr page
      let (root, ptePages, phys) ← mapHostPage vmAddr page root ptePages phys
      add4kDataPagesLoop pages next measurement root ptePages phys

/-- `HostRootBuilder::add_4k_data_pages` (`vm_pages.rs:229-255`): the measurement restarts
from `D::default()`. -/
def add4kDataPages (b : HostRootBuilder D) (toAddr : PageAddr PageSize4k) (pages : List Page4k)
    (phys : PhysPages) : Option (HostRootBuilder D × PhysPages) := do
  let measurement : D := default
  let (measurement, root, ptePages, phys) ←
    add4kDataPagesLoop pages (some toAddr.bits) measurement b.root b.ptePages phys
  some (⟨root, ptePages, measurement⟩, phys)

/-- The loop of `add_4k_pages` (`vm_pages.rs:265-276`). -/
def add4kPagesLoop : List Page4k → Option Nat → PageTable → List Page4k → PhysPages →
    Option (PageTable × List Page4k × PhysPages)
  | [], _, root, ptePages, phys => some (root, ptePages, phys)
  | page :: pages, vmAddr, root, ptePages, phys =>
    match iterFromNext vmAddr with
    | none => some (root, ptePages, phys)
    | some (vmAddr, next) => do
      let (root, ptePages, phys) ← mapHostPage vmAddr page root ptePages phys
      add4kPagesLoop pages next root ptePages phys

omit [Inhabited D] in
/-- The loop of `add_4k_pages` is that of `add_4k_data_pages` without the measurement. -/
theorem add4kPagesLoop_eq : ∀ (pages : List Page4k) (vmAddr : Option Nat) (d : D)
    (root : PageTable) (ptePages : List Page4k) (phys : PhysPages),
    add4kPagesLoop pages vmAddr root ptePages phys =
      (add4kDataPagesLoop pages vmAddr d root ptePages phys).map (·.2)
  | [], _, _, _, _, _ => rfl
  | page :: pages, vmAddr, d, root, ptePages, phys => by
    simp only [add4kPagesLoop, add4kDataPagesLoop]
    split
    · rfl
    · rcases mapHostPage _ page root ptePages phys with _ | ⟨root₁, pte₁, phys₁⟩
      · rfl
      · exact add4kPagesLoop_eq pages _ _ root₁ pte₁ phys₁

/-- `HostRootBuilder::add_4k_pages` (`vm_pages.rs:257-282`). -/
def add4kPages (b : HostRootBuilder D) (toAddr : PageAddr PageSize4k) (pages : List Page4k)
    (phys : PhysPages) : Option (HostRootBuilder D × PhysPages) := do
  let (root, ptePages, phys) ← add4kPagesLoop pages (some toAddr.bits) b.root b.ptePages phys
  some (⟨root, ptePages, b.measurement⟩, phys)

/-- `HostRootBuilder::create_host` (`vm_pages.rs:284-292`); the PTE reservoir is dropped. -/
def createHost (b : HostRootBuilder D) : HostRootPages D := ⟨⟨b.root, b.measurement⟩⟩

end HostRootBuilder

/-! ## `VmPages` -/

namespace VmPages

/-- `VmPages::page_owner_id` (`vm_pages.rs:44-47`). -/
def pageOwnerId (v : VmPages D) : PageOwnerId := v.root.pageOwnerId

/-- `next` of `clean_pages` in `create_guest_root_builder` (`vm_pages.rs:65-73`): the
invalidate iterator, `unwrap_4k`, and `set_page_owner(..).unwrap()`. -/
def cleanPagesNext (id : PageOwnerId) (slots : List Nat) (t : PageTable) (phys : PhysPages) :
    Option (Option Page4k × List Nat × PageTable × PhysPages) :=
  match t.invalidateNext slots with
  | (none, t) => some (none, [], t, phys)
  | (some (p, slots), t) => do
    let phys ← (phys.setPageOwner p.addr id).toOption
    some (some p, slots, t, phys)

/-- The pages `clean_pages.by_ref().take(n)` yields. `from_pages` stops pulling early only on
a mismatch, and then its `unwrap` panics whatever else was pulled, so the pages are pulled
first and handed to `from_pages` as a list. -/
def cleanPagesTake (id : PageOwnerId) :
    Nat → List Nat → PageTable → PhysPages → Option (List Page4k × List Nat × PageTable × PhysPages)
  | 0, slots, t, phys => some ([], slots, t, phys)
  | n + 1, slots, t, phys => do
    match ← cleanPagesNext id slots t phys with
    | (none, slots, t, phys) => some ([], slots, t, phys)
    | (some p, slots, t, phys) =>
      let (ps, slots, t, phys) ← cleanPagesTake id n slots t phys
      some (p :: ps, slots, t, phys)

/-- `VmPages::create_guest_root_builder` (`vm_pages.rs:53-83`). -/
def createGuestRootBuilder (self : VmPages D) (fromAddr : PageAddr PageSize4k) (m : Machine) :
    Option (Except Error (GuestRootBuilder D × Page4k) × VmPages D × Machine) :=
  if fromAddr.bits % (16 * 1024) ≠ 0 then some (.error (.unalignedVmPages fromAddr), self, m)
  else
    match m.phys.addActiveGuest with
    | .error e => some (.error (.guestId e), self, m)
    | .ok (id, phys) =>
      match PageTable.invalidateRange fromAddr 6 with
      | none => some (.error .invalidRange, self, { m with phys })
      | some slots => do
        let (rootPages, slots, t, phys) ← cleanPagesTake id 4 slots self.root phys
        let rootPages ← (fromPages rootPages).toOption
        let root ← (PageTable.new rootPages id).toOption
        let (ptePage, slots, t, phys) ← cleanPagesNext id slots t phys
        let ptePage ← ptePage
        let (statePage, _, t, phys) ← cleanPagesNext id slots t phys
        let statePage ← statePage
        some (.ok (GuestRootBuilder.new root ptePage, statePage), { self with root := t },
          { m with phys })

/-- The loop of `add_pte_pages_builder` (`vm_pages.rs:99-105`) over the slots the invalidate
iterator has left. -/
def addPtePagesLoop : List Nat → PageTable → GuestRootBuilder D → Machine →
    Except Error Unit × PageTable × GuestRootBuilder D × Machine
  | [], t, dest, m => (.ok (), t, dest, m)
  | gpa :: rest, t, dest, m =>
    match t.invalidateSlot gpa with
    | (none, t) => addPtePagesLoop rest t dest m
    | (some page, t) =>
      let m := { m with mem := m.mem.clean page }
      match m.phys.setPageOwner page.addr dest.pageOwnerId with
      | .error e => (.error (.settingOwner e), t, dest, m)
      | .ok phys =>
        let m := { m with phys }
        match dest.addPtePage page with
        | (.error e, dest) => (.error e, t, dest, m)
        | (.ok (), dest) => addPtePagesLoop rest t dest m

/-- `VmPages::add_pte_pages_builder` (`vm_pages.rs:85-107`). -/
def addPtePagesBuilder (self : VmPages D) (fromAddr : PageAddr PageSize4k) (count : Nat)
    (dest : GuestRootBuilder D) (m : Machine) :
    Except Error Unit × VmPages D × GuestRootBuilder D × Machine :=
  match PageTable.invalidateRange fromAddr count with
  | none => (.error .invalidRange, self, dest, m)
  | some slots =>
    let (r, t, dest, m) := addPtePagesLoop slots self.root dest m
    (r, { self with root := t }, dest, m)

omit [Inhabited D] [DataMeasure D] in
/-- `add_pte_pages_builder` runs its loop over the slots of the range, or over none when the
range is invalid. -/
theorem addPtePagesBuilder_eq_loop {self self' : VmPages D} {fromAddr : PageAddr PageSize4k}
    {count : Nat} {dest dest' : GuestRootBuilder D} {m m' : Machine} {r : Except Error Unit}
    (h : self.addPtePagesBuilder fromAddr count dest m = (r, self', dest', m')) :
    ∃ slots r', addPtePagesLoop slots self.root dest m = (r', self'.root, dest', m') ∧
      self'.measurement = self.measurement := by
  unfold addPtePagesBuilder at h
  split at h
  · cases h
    exact ⟨[], _, rfl, rfl⟩
  · rename_i slots _
    rcases hl : addPtePagesLoop slots self.root dest m with ⟨r₁, t, dest₁, m₁⟩
    rw [hl] at h
    cases h
    exact ⟨slots, _, hl, rfl⟩

/-- The loop of `add_4k_pages_builder` (`vm_pages.rs:124-134`) over
`unmapped_pages.zip(to_addr.iter_from())`: `Zip` pulls a page before it asks for an address,
so a page pulled when the addresses have run out is dropped. -/
def add4kPagesBuilderLoop (measurePreserve : Bool) : List Nat → Option Nat → PageTable →
    GuestRootBuilder D → Machine → Except Error Unit × PageTable × GuestRootBuilder D × Machine
  | [], _, t, dest, m => (.ok (), t, dest, m)
  | gpa :: rest, guestAddr, t, dest, m =>
    match t.invalidateSlot gpa with
    | (none, t) => add4kPagesBuilderLoop measurePreserve rest guestAddr t dest m
    | (some page, t) =>
      match iterFromNext guestAddr with
      | none => (.ok (), t, dest, m)
      | some (guestAddr, next) =>
        match m.phys.setPageOwner page.addr dest.pageOwnerId with
        | .error e => (.error (.settingOwner e), t, dest, m)
        | .ok phys =>
          let m := { m with phys }
          let (r, dest) :=
            if measurePreserve then dest.addDataPage guestAddr page
            else dest.addZeroPage guestAddr page
          match r with
          | .error e => (.error e, t, dest, m)
          | .ok () => add4kPagesBuilderLoop measurePreserve rest next t dest m

/-- `VmPages::add_4k_pages_builder` (`vm_pages.rs:109-136`), which returns `count`. -/
def add4kPagesBuilder (self : VmPages D) (fromAddr : PageAddr PageSize4k) (count : Nat)
    (dest : GuestRootBuilder D) (toAddr : PageAddr PageSize4k) (measurePreserve : Bool)
    (m : Machine) : Except Error Nat × VmPages D × GuestRootBuilder D × Machine :=
  match PageTable.invalidateRange fromAddr count with
  | none => (.error .invalidRange, self, dest, m)
  | some slots =>
    let (r, t, dest, m) :=
      add4kPagesBuilderLoop measurePreserve slots (some toAddr.bits) self.root dest m
    (r.map fun _ => count, { self with root := t }, dest, m)

omit [Inhabited D] in
/-- `add_4k_pages_builder` runs its loop over the slots of the range, or over none when the
range is invalid. -/
theorem add4kPagesBuilder_eq_loop {self self' : VmPages D} {fromAddr toAddr : PageAddr PageSize4k}
    {count : Nat} {dest dest' : GuestRootBuilder D} {measurePreserve : Bool} {m m' : Machine}
    {r : Except Error Nat}
    (h : self.add4kPagesBuilder fromAddr count dest toAddr measurePreserve m = (r, self', dest', m')) :
    ∃ slots r', add4kPagesBuilderLoop measurePreserve slots (some toAddr.bits) self.root dest m =
      (r', self'.root, dest', m') ∧ self'.measurement = self.measurement := by
  unfold add4kPagesBuilder at h
  split at h
  · cases h
    exact ⟨[], _, rfl, rfl⟩
  · rename_i slots _
    rcases hl : add4kPagesBuilderLoop measurePreserve slots (some toAddr.bits) self.root dest m
      with ⟨r₁, t, dest₁, m₁⟩
    rw [hl] at h
    cases h
    exact ⟨slots, _, hl, rfl⟩

/-- The loop of `remove_4k_pages` (`vm_pages.rs:146-156`) over the slots the unmap iterator
has left: the owner is popped before it is compared with `owner_id`. -/
def remove4kPagesLoop (ownerId : PageOwnerId) :
    List Nat → PageTable → Machine → Except Error Unit × PageTable × Machine
  | [], t, m => (.ok (), t, m)
  | gpa :: rest, t, m =>
    match t.unmapSlot gpa with
    | (none, t) => remove4kPagesLoop ownerId rest t m
    | (some page, t) =>
      let m := { m with mem := m.mem.clean page }
      match m.phys.popOwner page.addr with
      | .error _ => (.error (.unownedPage page.addr), t, m)
      | .ok (owner, phys) =>
        let m := { m with phys }
        if owner ≠ ownerId then (.error (.unownedPage page.addr), t, m)
        else remove4kPagesLoop ownerId rest t m

/-- `VmPages::remove_4k_pages` (`vm_pages.rs:138-158`), which returns `count`. -/
def remove4kPages (self : VmPages D) (fromAddr : PageAddr PageSize4k) (count : Nat)
    (m : Machine) : Except Error Nat × VmPages D × Machine :=
  let ownerId := self.root.pageOwnerId
  match PageTable.unmapRange fromAddr count with
  | none => (.error .invalidRange, self, m)
  | some slots =>
    let (r, t, m) := remove4kPagesLoop ownerId slots self.root m
    (r.map fun _ => count, { self with root := t }, m)

omit [Inhabited D] [DataMeasure D] in
/-- `remove_4k_pages` runs its loop over the slots of the range, or over none when the range is
invalid; every error of the loop is the call's. -/
theorem remove4kPages_eq_loop {self self' : VmPages D} {fromAddr : PageAddr PageSize4k}
    {count : Nat} {m m' : Machine} {r : Except Error Nat}
    (h : self.remove4kPages fromAddr count m = (r, self', m')) :
    ∃ slots r', remove4kPagesLoop self.root.pageOwnerId slots self.root m = (r', self'.root, m') ∧
      self'.measurement = self.measurement ∧ ∀ e, r' = .error e → r = .error e := by
  unfold remove4kPages at h
  split at h
  · cases h
    exact ⟨[], _, rfl, rfl, fun _ h => nomatch h⟩
  · rename_i slots _
    dsimp only at h
    rcases hl : remove4kPagesLoop self.root.pageOwnerId slots self.root m with ⟨r₁, t, m₁⟩
    rw [hl] at h
    cases h
    exact ⟨slots, _, hl, rfl, fun e he => by rw [he]; rfl⟩

/-- `VmPages::handle_page_fault` (`vm_pages.rs:165-172`), over the platform's
`do_guest_fault` hook. -/
def handlePageFault (doGuestFault : PageTable → Nat → Bool × PageTable) (self : VmPages D)
    (addr : Nat) : Except Error Unit × VmPages D :=
  match doGuestFault self.root addr with
  | (true, root) => (.ok (), { self with root })
  | (false, root) => (.error .pageFaultHandling, { self with root })

/-- `Drop for VmPages` (`vm_pages.rs:175-181`). -/
def drop (self : VmPages D) (phys : PhysPages) : PhysPages :=
  phys.rmActiveGuest self.pageOwnerId

end VmPages

end Salus
