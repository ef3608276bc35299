import Salus.Creation

/-!
# What the host's builder maps

`HostRootBuilder::add_4k_data_pages` and `add_4k_pages` (`vm_pages.rs:230-283`) zip the pages
they are given with `to_addr.iter_from()`. Each page passes the `assert_eq!` on its offset
within a `TOP_LEVEL_ALIGN` chunk, gets the builder's id pushed on its owner stack, and is mapped
valid at its address by `map_page_4k`, which takes its PTE pages from the builder's `PageRange`.
Pages left over once the addresses run out are dropped.

A call that returns, every `assert_eq!` and `unwrap` having held, has mapped exactly those
pairs and kept every other leaf, and has pushed the builder's id once per page it mapped.
`add_4k_data_pages` has measured the pairs from `D::default()`; `add_4k_pages` has kept the
measurement.
-/

namespace Salus

variable {D : Type} [Inhabited D] [DataMeasure D]

namespace PageTable

/-- `t'` is `t` with each page of `pairs` mapped valid at its address and every other leaf
kept. -/
structure MapsPairs (pairs : List (Nat × Page4k)) (t t' : PageTable) : Prop where
  mapped : ∀ q ∈ pairs, t'.entry q.1 = some ⟨q.2, true⟩
  kept : ∀ a, (∀ q ∈ pairs, q.1 ≠ a) → t'.entry a = t.entry a

theorem MapsPairs.nil (t : PageTable) : MapsPairs [] t t := ⟨nofun, fun _ _ => rfl⟩

/-- One pair mapped, then the others at other addresses. -/
theorem MapsPairs.cons {q : Nat × Page4k} {l : List (Nat × Page4k)} {t t₁ t₂ : PageTable}
    (h₁ : ∀ a, t₁.entry a = if a = q.1 then some ⟨q.2, true⟩ else t.entry a)
    (h₂ : MapsPairs l t₁ t₂) (hd : ∀ q' ∈ l, q'.1 ≠ q.1) : MapsPairs (q :: l) t t₂ where
  mapped q' hq' := by
    rcases List.mem_cons.mp hq' with rfl | hq'
    · rw [h₂.kept _ hd, h₁, if_pos rfl]
    · exact h₂.mapped q' hq'
  kept a ha := by
    have hq : q.1 ≠ a := ha q (List.mem_cons_self _ _)
    rw [h₂.kept a fun q' hq' => ha q' (List.mem_cons_of_mem _ hq'), h₁, if_neg (Ne.symm hq)]

end PageTable

namespace HostRootBuilder

/-- One page of the host's loops maps the page valid at its address, keeps the other leaves
and the table's owner, and pushes the owner's id on the page's stack. -/
theorem mapHostPage_maps {vmAddr : Nat} {page : Page4k} {root root' : PageTable}
    {pte pte' : List Page4k} {phys phys' : PhysPages}
    (h : mapHostPage vmAddr page root pte phys = some (root', pte', phys')) :
    (∀ a, root'.entry a = if a = vmAddr then some ⟨page, true⟩ else root.entry a) ∧
      root'.owner = root.owner ∧ phys.Pushed root.pageOwnerId [page] phys' := by
  unfold mapHostPage at h
  split at h
  · cases h
  rcases hs : phys.setPageOwner page.addr root.pageOwnerId with e | phys₁ <;>
    simp only [hs, Except.toOption, Option.bind_eq_bind, Option.none_bind, Option.some_bind,
      reduceCtorEq] at h
  split at h
  · rename_i root₁ pte₁ heq
    cases h
    have hent := PageTable.mapPage4k_ok (show (root.mapPage4k vmAddr page pte).1 = .ok () by
      rw [heq])
    have hown := (root.mapPage4k_spec vmAddr page pte).2.1
    simp only [heq] at hent hown
    refine ⟨fun a => ?_, hown, PhysPages.pushed_setPageOwner hs⟩
    rw [PageTable.entry, hent]
    by_cases ha : a = vmAddr
    · simp [ha]
    · simp [List.lookup_cons, beq_eq_false_iff_ne.mpr ha, ha, PageTable.entry]
  · cases h

omit [Inhabited D] in
/-- The loop of `add_4k_data_pages` maps the pairs of `pages.zip(iter_from)` and pushes the
table owner's id on each of their pages. -/
theorem add4kDataPagesLoop_maps : ∀ (pages : List Page4k) {vmAddr : Option Nat} {d d' : D}
    {root root' : PageTable} {pte pte' : List Page4k} {phys phys' : PhysPages},
    add4kDataPagesLoop pages vmAddr d root pte phys = some (d', root', pte', phys') →
    root.MapsPairs (zipIterFrom pages vmAddr) root' ∧ root'.owner = root.owner ∧
      phys.Pushed root.pageOwnerId ((zipIterFrom pages vmAddr).map Prod.snd) phys'
  | [], _, _, _, _, _, _, _, _, _, h => by
    cases h
    exact ⟨.nil _, rfl, .refl _ _⟩
  | page :: pages, vmAddr, d, d', root, root', pte, pte', phys, phys', h => by
    simp only [add4kDataPagesLoop] at h
    split at h
    · rename_i hit
      cases h
      rw [show zipIterFrom (page :: pages) vmAddr = [] by simp only [zipIterFrom, hit]]
      exact ⟨.nil _, rfl, .refl _ _⟩
    · rename_i a next hit
      simp only [Option.bind_eq_bind, Option.bind_eq_some] at h
      obtain ⟨⟨root₁, pte₁, phys₁⟩, hmap, h⟩ := h
      obtain ⟨hent, hown, hq⟩ := mapHostPage_maps hmap
      obtain ⟨hm', hown', hq'⟩ := add4kDataPagesLoop_maps pages h
      have hid : root₁.pageOwnerId = root.pageOwnerId := hown
      rw [hid] at hq'
      simp only [zipIterFrom, hit, List.map_cons]
      refine ⟨.cons hent hm' fun q hq => ?_, hown'.trans hown, hq.trans hq'⟩
      rw [next_eq_of_iterFromNext hit] at hq
      exact (lt_of_mem_zipIterFrom hq).ne'

end HostRootBuilder

/-- When `add_4k_data_pages` returns, the host's table maps the `i`-th page valid at
`to_addr + i·4 KiB` for every page that got an address, and keeps every other leaf and its
owner. The owner's id is pushed once on the stack of each page it mapped. The measurement is
that of those pairs, in order, from `D::default()`. -/
theorem add4kDataPages_maps {b b' : HostRootBuilder D} {toAddr : PageAddr PageSize4k}
    {pages : List Page4k} {phys phys' : PhysPages}
    (h : b.add4kDataPages toAddr pages phys = some (b', phys')) :
    b.root.MapsPairs (zipIterFrom pages (some toAddr.bits)) b'.root ∧
      b'.root.owner = b.root.owner ∧
      phys.Pushed b.root.pageOwnerId ((zipIterFrom pages (some toAddr.bits)).map Prod.snd)
        phys' ∧
      b'.measurement = measureAll default (zipIterFrom pages (some toAddr.bits)) := by
  have hmeas := add4kDataPages_measurement h
  simp only [HostRootBuilder.add4kDataPages, Option.bind_eq_bind, Option.bind_eq_some] at h
  obtain ⟨⟨d, root, pte, phys₁⟩, hl, h⟩ := h
  cases h
  obtain ⟨hm, hown, hq⟩ := HostRootBuilder.add4kDataPagesLoop_maps pages hl
  exact ⟨hm, hown, hq, hmeas⟩

/-- The first call of the small run: the host's builder maps its first eight pages at their own
addresses, measured. -/
theorem add4kDataPages_maps_small :
    ∃ s : System PageLog, Reachable smallHypMem AnyCall s ∧ ∃ b b' phys',
      s.principals = [.hostBuilder b] ∧
      b.add4kDataPages ⟨0x80010000, by decide, by decide⟩ (smallHypMem.hostPages.take 8)
        s.machine.phys = some (b', phys') ∧
      b.root.MapsPairs (zipIterFrom (smallHypMem.hostPages.take 8) (some 0x80010000)) b'.root ∧
      b'.root.owner = b.root.owner ∧
      s.machine.phys.Pushed b.root.pageOwnerId
        ((zipIterFrom (smallHypMem.hostPages.take 8) (some 0x80010000)).map Prod.snd) phys' ∧
      b'.measurement =
        measureAll default (zipIterFrom (smallHypMem.hostPages.take 8) (some 0x80010000)) := by
  obtain ⟨s, hs, hp⟩ := exists_reachable_of_run smallHypMem []
    (fun s : System PageLog =>
      match s.principals with
      | [Principal.hostBuilder b] =>
        (b.add4kDataPages ⟨0x80010000, by decide, by decide⟩ (smallHypMem.hostPages.take 8)
          s.machine.phys).isSome
      | _ => false) (by decide)
  refine ⟨s, hs, ?_⟩
  revert hp
  split
  · rename_i b hps
    intro hsome
    obtain ⟨⟨b', phys'⟩, hadd⟩ := Option.isSome_iff_exists.mp hsome
    exact ⟨b, b', phys', hps, hadd, add4kDataPages_maps hadd⟩
  · nofun

/-- When `add_4k_pages` returns, the host's table maps the `i`-th page valid at
`to_addr + i·4 KiB` for every page that got an address, and keeps every other leaf and its
owner. The owner's id is pushed once on the stack of each page it mapped. The measurement is
kept. -/
theorem add4kPages_maps {b b' : HostRootBuilder D} {toAddr : PageAddr PageSize4k}
    {pages : List Page4k} {phys phys' : PhysPages}
    (h : b.add4kPages toAddr pages phys = some (b', phys')) :
    b.root.MapsPairs (zipIterFrom pages (some toAddr.bits)) b'.root ∧
      b'.root.owner = b.root.owner ∧
      phys.Pushed b.root.pageOwnerId ((zipIterFrom pages (some toAddr.bits)).map Prod.snd)
        phys' ∧
      b'.measurement = b.measurement := by
  simp only [HostRootBuilder.add4kPages, Option.bind_eq_bind, Option.bind_eq_some,
    HostRootBuilder.add4kPagesLoop_eq pages _ (default : D)] at h
  obtain ⟨⟨root, pte, phys₁⟩, hl, h⟩ := h
  cases h
  obtain ⟨⟨d, root', pte', phys'⟩, hl, heq⟩ := Option.map_eq_some'.mp hl
  cases heq
  obtain ⟨hm, hown, hq⟩ := HostRootBuilder.add4kDataPagesLoop_maps pages hl
  exact ⟨hm, hown, hq, rfl⟩

/-- From boot, the host's builder maps its last eight pages at their own addresses, unmeasured. -/
theorem add4kPages_maps_small :
    ∃ s : System PageLog, Reachable smallHypMem AnyCall s ∧ ∃ b b' phys',
      s.principals = [.hostBuilder b] ∧
      b.add4kPages ⟨0x80018000, by decide, by decide⟩ (smallHypMem.hostPages.drop 8)
        s.machine.phys = some (b', phys') ∧
      b.root.MapsPairs (zipIterFrom (smallHypMem.hostPages.drop 8) (some 0x80018000)) b'.root ∧
      b'.root.owner = b.root.owner ∧
      s.machine.phys.Pushed b.root.pageOwnerId
        ((zipIterFrom (smallHypMem.hostPages.drop 8) (some 0x80018000)).map Prod.snd) phys' ∧
      b'.measurement = b.measurement := by
  obtain ⟨s, hs, hp⟩ := exists_reachable_of_run smallHypMem []
    (fun s : System PageLog =>
      match s.principals with
      | [Principal.hostBuilder b] =>
        (b.add4kPages ⟨0x80018000, by decide, by decide⟩ (smallHypMem.hostPages.drop 8)
          s.machine.phys).isSome
      | _ => false) (by decide)
  refine ⟨s, hs, ?_⟩
  revert hp
  split
  · rename_i b hps
    intro hsome
    obtain ⟨⟨b', phys'⟩, hadd⟩ := Option.isSome_iff_exists.mp hsome
    exact ⟨b, b', phys', hps, hadd, add4kPages_maps hadd⟩
  · nofun

end Salus
