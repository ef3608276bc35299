import Salus.Reclaim

/-!
# Where a call writes

A call of `vm_pages.rs` writes the machine in two ways only: it pushes or pops ids on the owner
stacks of pages, and it zeroes pages through `CleanPage`. This module bounds both for every
call, one lemma per call and `step_writesWithin` over all of them.

* The host builder's `add_4k_data_pages` and `add_4k_pages` write the owner stacks of the pages
  the caller hands in, and no memory.
* `create_guest_root_builder`, `add_pte_pages_builder` and `add_4k_pages_builder` write the owner
  stacks of pages of the VM's valid leaves, which carry its id on top; of these only
  `add_pte_pages_builder` (`vm_pages.rs:99-105`) zeroes pages.
* `remove_4k_pages` (`vm_pages.rs:146-157`) pops and zeroes the pages of the window's leaves. When
  it does not fail with `UnownedPage`, it popped the VM's own id off each of them; when it does,
  it has popped whatever id was on top, so the bound needs the call to be admitted.
* The guest builder's calls, `create_host` and `create_pages` do not write the machine.
-/

namespace Salus

variable {D : Type} [Inhabited D] [DataMeasure D]

/-- The principals a call names by index: the host builder, the VM or the guest builder it runs
on, and both the VM and the guest builder for the two hand-over calls. -/
def Call.names : Call → List Nat
  | .add4kDataPages i _ _ | .add4kPages i _ _ | .createHost i | .createGuestRootBuilder i _
  | .remove4kPages i _ _ => [i]
  | .addPtePagesBuilder i _ _ j | .add4kPagesBuilder i _ _ j _ _ => [i, j]
  | .addPtePage j _ | .addDataPage j _ _ | .addZeroPage j _ _ | .createPages j => [j]

namespace PageTable

theorem mem_validPages_of_entry {t : PageTable} {g : Nat} {p : Page4k}
    (h : t.entry g = some ⟨p, true⟩) : p ∈ t.validPages :=
  (validPages_invalidate t g).subset (List.mem_append_right _ (mem_validAt h))

theorem mem_validPages_of_mem_invalidate {t : PageTable} {g : Nat} {p : Page4k}
    (h : p ∈ (t.invalidate g).validPages) : p ∈ t.validPages :=
  (validPages_invalidate t g).subset (List.mem_append_left _ h)

theorem mem_entryPages {t : PageTable} {g : Nat} {e : Pte} (h : t.entry g = some e) :
    e.page ∈ t.entryPages := by
  obtain ⟨l₁, l₂, he, -⟩ := List.lookup_eq_some_iff.mp h
  simp [entryPages, he]

theorem mem_entryPages_of_mem_leavesIn {t : PageTable} {slots : List Nat} {p : Page4k}
    (h : p ∈ t.leavesIn slots) : p ∈ t.entryPages := by
  obtain ⟨g, -, hg⟩ := List.mem_filterMap.mp h
  obtain ⟨e, he, rfl⟩ := Option.map_eq_some'.mp hg
  exact mem_entryPages he

theorem mem_validPages_of_mem_validIn {t : PageTable} {slots : List Nat} {p : Page4k}
    (h : p ∈ t.validIn slots) : p ∈ t.validPages := by
  obtain ⟨g, -, hg⟩ := List.mem_filterMap.mp h
  unfold validPage at hg
  split at hg
  · cases hg
    exact mem_validPages_of_entry ‹_›
  · cases hg

theorem mem_entryPages_of_mem_validPages {t : PageTable} {p : Page4k} (h : p ∈ t.validPages) :
    p ∈ t.entryPages := by
  simp only [validPages, entryPages, List.mem_map, List.mem_filter] at h ⊢
  obtain ⟨x, ⟨hx, -⟩, rfl⟩ := h
  exact ⟨x, hx, rfl⟩

end PageTable

namespace PhysPages

/-- The owner stacks of `pp'` are those of `pp` at every address but the pages' of `l`. -/
def KeepsBut (pp : PhysPages) (l : List Page4k) (pp' : PhysPages) : Prop :=
  ∀ a, (∀ p ∈ l, p.bits ≠ a) → pp'.owners a = pp.owners a

variable {pp pp₁ pp₂ : PhysPages} {l l' : List Page4k}

theorem KeepsBut.of_owners_eq (h : pp₁.owners = pp.owners) : pp.KeepsBut l pp₁ :=
  fun a _ => congrFun h a

theorem KeepsBut.symm (h : pp.KeepsBut l pp₁) : pp₁.KeepsBut l pp :=
  fun a ha => (h a ha).symm

theorem KeepsBut.trans (h₁ : pp.KeepsBut l pp₁) (h₂ : pp₁.KeepsBut l pp₂) : pp.KeepsBut l pp₂ :=
  fun a ha => (h₂ a ha).trans (h₁ a ha)

theorem KeepsBut.mono (h : pp.KeepsBut l pp₁) (hl : ∀ p ∈ l, p ∈ l') : pp.KeepsBut l' pp₁ :=
  fun a ha => h a fun p hp => ha p (hl p hp)

/-- Pushing an id on the stacks of the pages of `l` keeps every other stack. -/
theorem Pushed.keepsBut {id : PageOwnerId} (h : pp.Pushed id l pp₁) : pp.KeepsBut l pp₁ :=
  fun a ha => by
    rw [h.1 a, List.countP_eq_zero.mpr fun p hp => by simpa using ha p hp]
    rfl

theorem KeepsBut.setPageOwner {p : Page4k} {id : PageOwnerId} (h : pp.KeepsBut l pp₁)
    (hp : p ∈ l) (hs : pp₁.setPageOwner p.addr id = .ok pp₂) : pp.KeepsBut l pp₂ :=
  h.trans ((pushed_setPageOwner hs).keepsBut.mono (List.forall_mem_singleton.mpr hp))

end PhysPages

/-- Memory left as it was is memory with no page zeroed. -/
theorem Memory.Cleaned.of_eq {mem mem' : Memory} (h : mem' = mem) : mem.Cleaned [] mem' :=
  h ▸ .refl _

omit [Inhabited D] [DataMeasure D] in
/-- `add_pte_pages_builder` zeroes only pages of valid leaves of the VM's table, whatever it
returns. -/
theorem addPtePagesBuilder_cleans {v v' : VmPages D} {fromAddr : PageAddr PageSize4k}
    {count : Nat} {dest dest' : GuestRootBuilder D} {m m' : Machine} {r : Except Error Unit}
    (h : v.addPtePagesBuilder fromAddr count dest m = (r, v', dest', m')) :
    ∃ l : List Page4k, (∀ p ∈ l, p ∈ v.root.validPages) ∧ m.mem.Cleaned l m'.mem := by
  unfold VmPages.addPtePagesBuilder at h
  split at h
  · cases h
    exact ⟨[], nofun, .refl _⟩
  rename_i slots hr
  obtain rfl := PageTable.eq_slots_of_invalidateRange hr
  rcases hl : VmPages.addPtePagesLoop (PageTable.slots fromAddr.bits count) v.root dest m with
    ⟨r₁, t, d, m₁⟩
  rw [hl] at h
  cases h
  rcases r with e | ⟨⟩
  · obtain ⟨done, p, rest, hp, -, hc, -⟩ := addPtePagesLoop_error _ (PageTable.slots_nodup _ _) hl
    refine ⟨done ++ [p], fun q hq => PageTable.mem_validPages_of_mem_validIn
      (show q ∈ v.root.validIn (PageTable.slots fromAddr.bits count) from ?_), hc⟩
    rw [hp.valid]
    exact List.mem_append_left _ hq
  · obtain ⟨-, -, -, hc⟩ := addPtePagesLoop_ok _ (PageTable.slots_nodup _ _) hl
    exact ⟨_, fun q hq => PageTable.mem_validPages_of_mem_validIn hq, hc⟩

omit [Inhabited D] [DataMeasure D] in
/-- `remove_4k_pages` fails only on the range or on a page it does not own. -/
theorem remove4kPages_eq_error {v v' : VmPages D} {fromAddr : PageAddr PageSize4k}
    {count : Nat} {m m' : Machine} {e : Error}
    (h : v.remove4kPages fromAddr count m = (.error e, v', m')) :
    m' = m ∨ ∃ a, e = .unownedPage a := by
  unfold VmPages.remove4kPages at h
  split at h
  · cases h
    exact .inl rfl
  rename_i slots hr
  obtain rfl := PageTable.eq_slots_of_invalidateRange hr
  dsimp only at h
  rcases hl : VmPages.remove4kPagesLoop v.root.pageOwnerId (PageTable.slots fromAddr.bits count)
    v.root m with ⟨r, t, m₁⟩
  rw [hl] at h
  rcases r with e' | ⟨⟩ <;> cases h
  obtain ⟨-, -, -, p, -, -, rfl, -⟩ := remove4kPagesLoop_error _ (PageTable.slots_nodup _ _) hl
  exact .inr ⟨_, rfl⟩

namespace System

/-! ## The loops

Each loop writes the owner stacks only of pages of a list fixed when it starts: the pages the
caller hands to the host builder, or the valid leaves of the table the VM's loops start from. -/

section Loops

omit [Inhabited D] [DataMeasure D]

variable {pp₀ : PhysPages} {l₀ : List Page4k}

/-- The step of the hand-over and pull loops: the page of a valid leaf is one of `l₀`, and the
leaves left valid are among those before. -/
theorem keepsBut_invalidate {t : PageTable} {g : Nat} {p : Page4k} {pp pp' : PhysPages}
    {id : PageOwnerId} (he : t.entry g = some ⟨p, true⟩)
    (hq : (∀ q ∈ t.validPages, q ∈ l₀) ∧ pp₀.KeepsBut l₀ pp)
    (hs : pp.setPageOwner p.addr id = .ok pp') :
    (∀ q ∈ (t.invalidate g).validPages, q ∈ l₀) ∧ pp₀.KeepsBut l₀ pp' :=
  ⟨fun _ hq' => hq.1 _ (PageTable.mem_validPages_of_mem_invalidate hq'),
    hq.2.setPageOwner (hq.1 p (PageTable.mem_validPages_of_entry he)) hs⟩

theorem keepsBut_keptByHandOver :
    KeptByHandOver (D := D) fun t _ m => (∀ q ∈ t.validPages, q ∈ l₀) ∧ pp₀.KeepsBut l₀ m.phys
    where
  drop _ hq _ hm := ⟨fun _ hq' => hq.1 _ (PageTable.mem_validPages_of_mem_invalidate hq'),
    hm ▸ hq.2⟩
  put he hq hs _ _ hm := hm ▸ keepsBut_invalidate he hq hs

theorem keepsBut_keptByPull (id : PageOwnerId) :
    KeptByPull id fun (_ : List Page4k) t pp => (∀ q ∈ t.validPages, q ∈ l₀) ∧ pp₀.KeepsBut l₀ pp
    where
  pull he hq hs := keepsBut_invalidate he hq hs

theorem keepsBut_keptByMap :
    KeptByMap fun pages _ _ pp => (∀ q ∈ pages, q ∈ l₀) ∧ pp₀.KeepsBut l₀ pp where
  map hq hs := ⟨fun q hq' => hq.1 q (List.mem_cons_of_mem _ hq'),
    hq.2.setPageOwner (hq.1 _ (List.mem_cons_self _ _)) hs⟩
  drop hq := ⟨nofun, hq.2⟩

end Loops

omit [Inhabited D] in
/-- The host builder's loop writes the owner stacks of the pages it maps, and no others. -/
theorem add4kDataPagesLoop_keepsBut {pages : List Page4k} {vmAddr : Option Nat} {d d' : D}
    {root root' : PageTable} {pte pte' : List Page4k} {phys phys' : PhysPages}
    (h : HostRootBuilder.add4kDataPagesLoop pages vmAddr d root pte phys =
      some (d', root', pte', phys')) : phys.KeepsBut pages phys' :=
  (add4kDataPagesLoop_induct keepsBut_keptByMap pages h ⟨fun _ => id, fun _ _ => rfl⟩).2

/-- The call from `s` to `s'`, which names the principals at `ks`, changes owner stacks only at
the pages of `l` and memory only by zeroing the pages of `z`. Either these are pages the caller
handed in, of which it zeroes none, or each is the page of a leaf of a running VM at one of `ks`,
with that VM's id on top of its stack in `s`. -/
def WritesWithin (s s' : System D) (ks : List Nat) : Prop :=
  ∃ l z : List Page4k, s.machine.phys.KeepsBut l s'.machine.phys ∧
    s.machine.mem.Cleaned z s'.machine.mem ∧
    ((∀ p ∈ l, p ∈ s.loose) ∧ z = [] ∨
      ∃ i ∈ ks, ∃ v, s.principals[i]? = some (.vm v) ∧ (∀ p ∈ z, p ∈ l) ∧
        ∀ p ∈ l, p ∈ v.root.entryPages ∧ s.machine.phys.owner p.bits = some v.root.owner)

section WritesWithin

omit [Inhabited D] [DataMeasure D]

variable {s s' : System D} {ks : List Nat}

theorem writesWithin_of_eq (hown : s'.machine.phys.owners = s.machine.phys.owners)
    (hm : s'.machine.mem = s.machine.mem) : s.WritesWithin s' ks :=
  ⟨[], [], .of_owners_eq hown, .of_eq hm, .inl ⟨nofun, rfl⟩⟩

theorem writesWithin_of_machine_eq (h : s'.machine = s.machine) : s.WritesWithin s' ks :=
  writesWithin_of_eq (by rw [h]) (by rw [h])

theorem writesWithin_loose {l : List Page4k} (hl : ∀ p ∈ l, p ∈ s.loose)
    (hk : s.machine.phys.KeepsBut l s'.machine.phys) (hm : s'.machine.mem = s.machine.mem) :
    s.WritesWithin s' ks :=
  ⟨l, [], hk, .of_eq hm, .inl ⟨hl, rfl⟩⟩

/-- A call on the VM at `i` that writes only pages of its valid leaves, which carry its id in
every isolated state. -/
theorem writesWithin_validPages (hs : s.Isolated) {i : Nat} (hi : i ∈ ks) {v : VmPages D}
    (hv : s.principals[i]? = some (.vm v)) {z : List Page4k} (hz : ∀ p ∈ z, p ∈ v.root.validPages)
    (hk : s.machine.phys.KeepsBut v.root.validPages s'.machine.phys)
    (hc : s.machine.mem.Cleaned z s'.machine.mem) : s.WritesWithin s' ks :=
  ⟨_, z, hk, hc, .inr ⟨i, hi, v, hv, hz, fun p hp => ⟨PageTable.mem_entryPages_of_mem_validPages hp,
    hs.owned _ (List.getElem?_mem hv) p (Principal.mem_ownedPages_of_mem_validPages hp)⟩⟩⟩

end WritesWithin

section Calls

variable {m : Machine} {ps : List (Principal D)} {L : List Page4k} {s' : System D}
  {r : Except Error Unit} {i j : Nat} {fromAddr : PageAddr PageSize4k} {count : Nat}

theorem createGuestRootBuilder_writesWithin (hs : (System.mk m ps L).Isolated)
    (h : (System.mk m ps L).step (.createGuestRootBuilder i fromAddr) = some (s', r)) :
    (System.mk m ps L).WritesWithin s' [i] := by
  obtain ⟨v, r', v', m', hv, hc, h⟩ := step_createGuestRootBuilder h
  have hm : s'.machine = m' := by
    rcases r' with _ | ⟨b, sp⟩ <;> (dsimp only at h; rw [h])
  rcases createGuestRootBuilder_eq_some hc with ⟨-, hmem, hown, -⟩ |
    ⟨phys₁, _, _, _, _, _, _, _, _, _, _, _, _, hact, htake, hnext₁, hnext₂, -, hmem, -⟩
  · exact writesWithin_of_eq (hm ▸ hown) (hm ▸ hmem)
  · refine writesWithin_validPages hs (List.mem_singleton_self i) hv (z := []) nofun (hm ▸ ?_)
      (.of_eq (hm ▸ hmem))
    exact (cleanPages_induct (keepsBut_keptByPull _) htake hnext₁ hnext₂
      ⟨fun _ => id, .of_owners_eq (PhysPages.addActiveGuest_eq_ok hact).2.1⟩).2

theorem addPtePagesBuilder_writesWithin (hs : (System.mk m ps L).Isolated)
    (h : (System.mk m ps L).step (.addPtePagesBuilder i fromAddr count j) = some (s', r)) :
    (System.mk m ps L).WritesWithin s' [i, j] := by
  obtain ⟨v, b, v', b', m', hv, -, hc, rfl⟩ := step_addPtePagesBuilder h
  obtain ⟨slots, _, hl, -⟩ := VmPages.addPtePagesBuilder_eq_loop hc
  obtain ⟨z, hz, hcl⟩ := addPtePagesBuilder_cleans hc
  exact writesWithin_validPages hs (List.mem_cons_self i _) hv hz
    (addPtePagesLoop_induct keepsBut_keptByHandOver slots hl ⟨fun _ => id, fun _ _ => rfl⟩).2 hcl

theorem add4kPagesBuilder_writesWithin (hs : (System.mk m ps L).Isolated)
    {toAddr : PageAddr PageSize4k} {measurePreserve : Bool}
    (h : (System.mk m ps L).step (.add4kPagesBuilder i fromAddr count j toAddr measurePreserve) =
      some (s', r)) :
    (System.mk m ps L).WritesWithin s' [i, j] := by
  obtain ⟨v, b, r', v', b', m', hv, -, hc, rfl⟩ := step_add4kPagesBuilder h
  obtain ⟨slots, _, hl, -⟩ := VmPages.add4kPagesBuilder_eq_loop hc
  have hmem := add4kPagesBuilder_mem v fromAddr count b toAddr measurePreserve m
  rw [hc] at hmem
  exact writesWithin_validPages hs (List.mem_cons_self i _) hv (z := []) nofun
    (add4kPagesBuilderLoop_induct keepsBut_keptByHandOver measurePreserve slots hl
      ⟨fun _ => id, fun _ _ => rfl⟩).2 (.of_eq hmem)

/-- An admitted `remove_4k_pages` either writes nothing or pops the VM's own id off the pages
of the window's leaves and zeroes them. -/
theorem remove4kPages_writesWithin (ha : Admitted (System.mk m ps L) (.remove4kPages i fromAddr count))
    (h : (System.mk m ps L).step (.remove4kPages i fromAddr count) = some (s', r)) :
    (System.mk m ps L).WritesWithin s' [i] := by
  obtain ⟨v, r', v', m', hv, hc, rfl⟩ := step_remove4kPages h
  rcases r' with e | k
  · rcases remove4kPages_eq_error hc with rfl | ⟨a, rfl⟩
    · exact writesWithin_of_machine_eq rfl
    · exact absurd (by rw [hc]) (ha v hv a)
  · obtain ⟨-, -, -, hq, hcl⟩ := remove4kPages_eq_ok hc
    refine ⟨_, _, hq.keepsBut.symm, hcl, .inr ⟨i, List.mem_singleton_self i, v, hv, fun _ => id,
      fun p hp => ⟨PageTable.mem_entryPages_of_mem_leavesIn hp, ?_⟩⟩⟩
    obtain ⟨n, hst⟩ := hq.owners_of_mem hp
    simp [PhysPages.owner, hst, Principal.root, VmPages.pageOwnerId, PageTable.pageOwnerId]

end Calls

/-- Every admitted call from an isolated state writes only within the pages the caller hands in
or the leaves of a running VM it names (`WritesWithin`). -/
theorem step_writesWithin {s s' : System D} {c : Call} {r : Except Error Unit} (hs : s.Isolated)
    (ha : Admitted s c) (h : s.step c = some (s', r)) : s.WritesWithin s' c.names := by
  obtain ⟨m, ps, L⟩ := s
  have hbuilder : ∀ {j page} {f : GuestRootBuilder D → Except Error Unit × GuestRootBuilder D},
      (System.mk m ps L).builderCall j page f = some (s', r) →
        (System.mk m ps L).WritesWithin s' [j] := fun h => by
    obtain ⟨b, -, -, rfl⟩ := builderCall_eq_some h
    exact writesWithin_of_machine_eq rfl
  cases c with
  | add4kDataPages i toAddr pages =>
    obtain ⟨b, b', phys', -, hsub, hf, rfl⟩ := hostCall_eq_some h
    exact writesWithin_loose (fun _ hp => hsub.subset hp)
      (add4kDataPagesLoop_keepsBut (add4kDataPages_loop hf)) rfl
  | add4kPages i toAddr pages =>
    obtain ⟨b, b', phys', -, hsub, hf, rfl⟩ := hostCall_eq_some h
    obtain ⟨d', hl⟩ := add4kPages_loop default hf
    exact writesWithin_loose (fun _ hp => hsub.subset hp) (add4kDataPagesLoop_keepsBut hl) rfl
  | createHost i =>
    obtain ⟨b, -, rfl⟩ := step_createHost h
    exact writesWithin_of_machine_eq rfl
  | createGuestRootBuilder i fromAddr => exact createGuestRootBuilder_writesWithin hs h
  | addPtePagesBuilder i fromAddr count j => exact addPtePagesBuilder_writesWithin hs h
  | add4kPagesBuilder i fromAddr count j toAddr measurePreserve =>
    exact add4kPagesBuilder_writesWithin hs h
  | remove4kPages i fromAddr count => exact remove4kPages_writesWithin ha h
  | addPtePage j page => exact hbuilder h
  | addDataPage j gpa page =>
    exact hbuilder (show (System.mk m ps L).builderCall j page
      (fun b => b.addDataPage gpa page) = _ from h)
  | addZeroPage j gpa page =>
    exact hbuilder (show (System.mk m ps L).builderCall j page
      (fun b => b.addZeroPage gpa page) = _ from h)
  | createPages j =>
    obtain ⟨b, -, rfl⟩ := step_createPages h
    exact writesWithin_of_machine_eq rfl

end System

end Salus
