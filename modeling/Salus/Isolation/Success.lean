import Salus.Isolation.Custody
import Salus.Isolation.OwnerStacks
import Salus.Isolation.Footprint

/-!
# When the calls on a running VM succeed

In every state reached by admitted calls, whether `remove_4k_pages` and `add_pte_pages_builder`
return `Ok` is decided by the range and by what the caller can see of the machine.

`remove_4k_pages` (`vm_pages.rs:138-158`) pops the owner stack of the page of every leaf of the
window in slot order, and fails at the first page whose popped id is not the VM's own, or whose
stack has nothing below its top. In every state reached by admitted calls neither a page met
twice nor a stack of one id can stop it: the leaves of a table map distinct pages, and a page
with a VM's id on top has the hypervisor below it. So the call returns `Ok` exactly when its
range is accepted and every leaf of the window carries the VM's own id on top of its stack; on
an accepted range, that is exactly when the call is admitted.

`add_pte_pages_builder` (`vm_pages.rs:86-107`) pushes the builder's id on the stack of the page
of every valid leaf of the window and the page on the builder's pool. Its pages are distinct and
tracked, so it returns `Ok` exactly when the range is accepted, none of these stacks is full, and
the pool has room for all of them: the call fails with `SettingOwner` or
`InsufficientPtePageStorage` only when one of these fails.
-/

namespace Salus

variable {D : Type} [Inhabited D] [DataMeasure D]

namespace PageTable

theorem mem_entries_of_entry {t : PageTable} {g : Nat} {e : Pte} (h : t.entry g = some e) :
    (g, e) ∈ t.entries := by
  obtain ⟨l₁, l₂, he, -⟩ := List.lookup_eq_some_iff.mp h
  simp [he]

/-- The leaves at distinct slots of a table whose leaves map distinct pages are distinct. -/
theorem leavesIn_nodup {t : PageTable} {slots : List Nat} (ht : t.entryPages.Nodup)
    (hs : slots.Nodup) : (t.leavesIn slots).Nodup :=
  hs.filterMap fun g g' p hp hp' => by
    obtain ⟨e, he, rfl⟩ := Option.map_eq_some'.mp hp
    obtain ⟨e', he', hpage⟩ := Option.map_eq_some'.mp hp'
    exact congrArg Prod.fst
      (List.inj_on_of_nodup_map ht (mem_entries_of_entry he) (mem_entries_of_entry he') hpage.symm)

theorem entry_of_validPage {t : PageTable} {g : Nat} {p : Page4k} (h : t.validPage g = some p) :
    t.entry g = some ⟨p, true⟩ := by
  unfold validPage at h
  split at h
  · cases h
    assumption
  · cases h

/-- The valid leaves at distinct slots of a table whose leaves map distinct pages are
distinct. -/
theorem validIn_nodup {t : PageTable} {slots : List Nat} (ht : t.entryPages.Nodup)
    (hs : slots.Nodup) : (t.validIn slots).Nodup :=
  hs.filterMap fun _ _ _ hp hp' => congrArg Prod.fst (List.inj_on_of_nodup_map ht
    (mem_entries_of_entry (entry_of_validPage hp)) (mem_entries_of_entry (entry_of_validPage hp'))
    rfl)

theorem invalidateRange_eq_none {gpa : PageAddr PageSize4k} {count : Nat}
    (h : ¬(gpa.bits % topLevelAlign = 0 ∧ gpa.bits + count * 4096 ≤ 2 ^ 64)) :
    invalidateRange gpa count = none :=
  if_neg h

end PageTable

theorem PhysPages.popOwner_of_owners {pp : PhysPages} {addr : PageAddr PageSize4k}
    {top : PageOwnerId} {below : List PageOwnerId} (h : pp.owners addr.bits = top :: below)
    (hb : below ≠ []) : pp.popOwner addr = .ok (top, pp.setOwners addr.bits below) := by
  unfold PhysPages.popOwner
  rw [h]
  cases below with
  | nil => exact absurd rfl hb
  | cons b below => rfl

/-! ## The loop -/

/-- What lets the loop of `remove_4k_pages` run to its end over `slots`: distinct slots,
distinct pages at their leaves, and on each such page a stack with `ownerId` on top and something
below it. -/
structure Removable (ownerId : PageOwnerId) (slots : List Nat) (t : PageTable) (pp : PhysPages) :
    Prop where
  slotsNodup : slots.Nodup
  leavesNodup : (t.leavesIn slots).Nodup
  owned : ∀ p ∈ t.leavesIn slots, ∃ below, below ≠ [] ∧ pp.owners p.bits = ownerId :: below

/-- The loop of `remove_4k_pages` returns `Ok` over slots it can remove. -/
theorem remove4kPagesLoop_ok_of_removable {ownerId : PageOwnerId} :
    ∀ (slots : List Nat) {t : PageTable} {m : Machine}, Removable ownerId slots t m.phys →
      (VmPages.remove4kPagesLoop ownerId slots t m).1 = .ok ()
  | [], _, _, _ => rfl
  | g :: rest, t, m, h => by
    obtain ⟨hg, hrest⟩ := List.nodup_cons.mp h.slotsNodup
    rcases hu : t.unmapSlot g with ⟨op, t'⟩
    have hl := (PageTable.unmapSlot_unmaps hu).2.2 rest hg
    have hleaves := h.leavesNodup
    rw [hl] at hleaves
    simp only [VmPages.remove4kPagesLoop, hu]
    cases op with
    | none =>
      exact remove4kPagesLoop_ok_of_removable rest
        ⟨hrest, hleaves, fun p hp => h.owned p (by rw [hl]; exact hp)⟩
    | some p =>
      obtain ⟨below, hb, hst⟩ := h.owned p (by rw [hl]; exact List.mem_cons_self _ _)
      obtain ⟨hp, hleaves'⟩ := List.nodup_cons.mp hleaves
      dsimp only
      rw [PhysPages.popOwner_of_owners (show m.phys.owners p.addr.bits = _ from hst) hb]
      simp only [ne_eq, not_true_eq_false, if_false]
      refine remove4kPagesLoop_ok_of_removable rest ⟨hrest, hleaves', fun q hq => ?_⟩
      obtain ⟨below', hb', hst'⟩ := h.owned q (by rw [hl]; exact List.mem_cons_of_mem _ hq)
      refine ⟨below', hb', ?_⟩
      rw [PhysPages.setOwners_owners,
        if_neg (show ¬q.bits = p.addr.bits from fun he =>
          hp (Page.ext_bits (show q.bits = p.bits from he) ▸ hq)), hst']

namespace System

/-! ## Distinct leaves

A running VM's table only loses leaves: it is invalidated or unmapped, never mapped again. So its
leaves are a sublist of those of the builder it was created from, whose leaves are all valid and
so distinct. -/

omit [Inhabited D] [DataMeasure D] in
/-- A builder's leaves are all valid, and in an isolated state its valid leaves are distinct. -/
theorem Isolated.entryPages_nodup_of_builder {s : System D} (hs : s.Isolated) {w : Principal D}
    (hw : w ∈ s.principals) (hb : w.isVm = false) : w.root.entryPages.Nodup := by
  have hheld := (List.nodup_flatMap.mp (List.nodup_append.mp hs.nodup).1).1 w hw
  have hvalid : w.root.validPages.Nodup := by
    cases w with
    | vm => nomatch hb
    | _ => exact (List.nodup_append.mp (List.nodup_append.mp (List.nodup_append.mp hheld).1).1).1
  have hperm := w.root.validPages_append_invalidPages_perm
  rw [hs.builders w hw hb, List.append_nil] at hperm
  exact hperm.nodup_iff.mp hvalid

end System

/-- In every state reached by admitted calls, the leaves of every table, valid or invalidated,
map distinct pages. -/
theorem Reachable.entryPages_nodup {boot : HypMem} {s : System D}
    (h : Reachable boot Admitted s) : ∀ w ∈ s.principals, w.root.entryPages.Nodup := by
  induction h with
  | init hb =>
    obtain ⟨_, -, rfl⟩ := System.boot_eq_some hb
    intro w hw
    rw [List.mem_singleton.mp hw]
    exact List.nodup_nil
  | @step s s' c r hr ha hs ih =>
    intro w hw
    cases hvm : w.isVm with
    | false => exact (hr.step ha hs).isolated.entryPages_nodup_of_builder hw hvm
    | true =>
      obtain ⟨k, hk⟩ := List.mem_iff_getElem?.mp hw
      cases w with
      | vm v' =>
        obtain ⟨w₀, hw₀, hsub⟩ := System.entryPages_step hs hk
        exact hsub.nodup (ih w₀ (List.getElem?_mem hw₀))
      | hostBuilder _ => nomatch hvm
      | guestBuilder _ => nomatch hvm

/-- In every state reached from `from_hyp_mem` by admitted calls, no two leaves of a table, valid
or invalidated, map the same physical page: a VM's table only invalidates and unmaps the leaves
of the builder it was made from, which are all valid and held by it alone. -/
theorem reachable_leaves_map_distinct_pages {boot : HypMem} {s : System D}
    (h : Reachable boot Admitted s) :
    ∀ w ∈ s.principals, ∀ g g' : Nat, ∀ e e' : Pte, w.root.entry g = some e →
      w.root.entry g' = some e' → e.page = e'.page → g = g' :=
  fun w hw _ _ _ _ he he' hpage => congrArg Prod.fst (List.inj_on_of_nodup_map
    (h.entryPages_nodup w hw) (PageTable.mem_entries_of_entry he)
    (PageTable.mem_entries_of_entry he') hpage)

/-- In the small machine with the guest running, the host's table has the invalidated leaf at
`0x8001_C000` and a valid leaf at `0x8001_6000`, and no page twice. -/
theorem reachable_leaves_map_distinct_pages_small :
    ∃ s : System PageLog, Reachable smallHypMem Admitted s ∧ ∃ v,
      s.principals[0]? = some (.vm v) ∧ (v.root.entry 0x8001C000).map (·.valid) = some false ∧
      (v.root.entry 0x80016000).map (·.valid) = some true ∧
      ∀ w ∈ s.principals, ∀ g g' : Nat, ∀ e e' : Pte, w.root.entry g = some e →
        w.root.entry g' = some e' → e.page = e'.page → g = g' := by
  obtain ⟨s, hs, hp⟩ := exists_reachable_of_allowed_run smallHypMem (smallCalls ++ [.createPages 1])
    (fun s c hc => (List.mem_append.mp hc).elim (smallCalls_admitted s c) fun hc => by
      rw [List.mem_singleton.mp hc]; trivial)
    (fun s : System PageLog =>
      match s.principals[0]? with
      | some (Principal.vm v) =>
        (v.root.entry 0x8001C000).map (·.valid) == some false &&
          (v.root.entry 0x80016000).map (·.valid) == some true
      | _ => false) (by decide)
  refine ⟨s, hs, ?_⟩
  revert hp
  split
  · rename_i v hv
    intro hp
    simp only [Bool.and_eq_true, beq_iff_eq] at hp
    exact ⟨v, hv, hp.1, hp.2, reachable_leaves_map_distinct_pages hs⟩
  · nofun

/-- In every state reached by admitted calls, a page with a principal's id on top of its stack
has something below that id: the hypervisor at the bottom. -/
theorem Reachable.below_ne_nil {boot : HypMem} {s : System D} (h : Reachable boot Admitted s)
    {w : Principal D} (hw : w ∈ s.principals) {a : Nat}
    (ho : s.machine.phys.owner a = some w.root.owner) :
    ∃ below, below ≠ [] ∧ s.machine.phys.owners a = w.root.owner :: below := by
  obtain ⟨below, hst⟩ := List.head?_eq_some_iff.mp ho
  refine ⟨below, fun hb => ?_, hst⟩
  have hbot : (s.machine.phys.owners a).getLast? =
      (if a ∈ boot.pages.map Page.bits then [PageOwnerId.hypervisor] else []).getLast? :=
    System.Reachable.preorder PhysPages.sameBottoms_preorder h a
  rw [hst, hb] at hbot
  split at hbot
  · have he : w.root.owner = .hypervisor := Option.some.inj hbot
    exact h.custody.hyp (by rw [System.ids, ← he]; exact List.mem_map_of_mem _ hw)
  · cases hbot

theorem PageTable.unmapRange_ne_none {fromAddr : PageAddr PageSize4k} {count : Nat}
    (h : PageTable.unmapRange fromAddr count ≠ none) :
    fromAddr.bits % topLevelAlign = 0 ∧ fromAddr.bits + count * 4096 ≤ 2 ^ 64 := by
  unfold PageTable.unmapRange PageTable.invalidateRange at h
  split at h
  · assumption
  · exact absurd rfl h

omit [Inhabited D] [DataMeasure D] in
/-- What `remove_4k_pages` returns is what its loop returns over the range, mapped to `count`. -/
theorem remove4kPages_fst {v : VmPages D} {fromAddr : PageAddr PageSize4k} {count : Nat}
    {m : Machine} {slots : List Nat} (hr : PageTable.unmapRange fromAddr count = some slots) :
    (v.remove4kPages fromAddr count m).1 =
      (VmPages.remove4kPagesLoop v.root.pageOwnerId slots v.root m).1.map fun _ => count := by
  simp only [VmPages.remove4kPages, hr]

/-- In every state reached from `from_hyp_mem` by admitted calls, `remove_4k_pages` on a running
VM returns `Ok(count)` exactly when its range is accepted (`from_addr` aligned to
`TOP_LEVEL_ALIGN` and the window below `2^64`) and every leaf of the window, valid or
invalidated, has the VM's id on top of its page's owner stack. -/
theorem reachable_remove4kPages_ok_iff {boot : HypMem} {s : System D}
    (h : Reachable boot Admitted s) {i : Nat} {v : VmPages D}
    (hv : s.principals[i]? = some (.vm v)) (fromAddr : PageAddr PageSize4k) (count : Nat) :
    (v.remove4kPages fromAddr count s.machine).1 = .ok count ↔
      (fromAddr.bits % topLevelAlign = 0 ∧ fromAddr.bits + count * 4096 ≤ 2 ^ 64) ∧
        ∀ p ∈ v.root.leavesIn (PageTable.slots fromAddr.bits count),
          s.machine.phys.owner p.bits = some v.root.owner := by
  have hw := List.getElem?_mem hv
  constructor
  · intro hok
    have hrange : PageTable.unmapRange fromAddr count ≠ none := fun hn => by
      simp only [VmPages.remove4kPages, hn] at hok
      cases hok
    refine ⟨PageTable.unmapRange_ne_none hrange, fun p hp => ?_⟩
    rcases hr : v.remove4kPages fromAddr count s.machine with ⟨r, v', m'⟩
    rw [hr] at hok
    subst hok
    obtain ⟨n, hst⟩ := (remove4kPages_eq_ok hr).2.2.2.1.owners_of_mem hp
    simp only [PhysPages.owner, hst, List.head?_cons]
    rfl
  · rintro ⟨⟨ha, hfit⟩, hown⟩
    rw [remove4kPages_fst (PageTable.invalidateRange_of_aligned ha hfit),
      remove4kPagesLoop_ok_of_removable _ (show Removable v.root.pageOwnerId _ v.root s.machine.phys
        from ⟨PageTable.slots_nodup _ _,
          PageTable.leavesIn_nodup (h.entryPages_nodup _ hw) (PageTable.slots_nodup _ _),
          fun p hp => h.below_ne_nil hw (hown p hp)⟩)]
    rfl

/-- In the small machine with the guest running, the host's leaf at `0x8001_C000` is a page it
handed to the guest, which still has its id on top: the host's `remove_4k_pages` over it fails,
as the guest's id on top of the page says it must. -/
theorem reachable_remove4kPages_ok_iff_small :
    ∃ s : System PageLog, Reachable smallHypMem Admitted s ∧ ∃ v,
      s.principals[0]? = some (.vm v) ∧
      (∃ e, (v.remove4kPages ⟨0x8001C000, by decide, by decide⟩ 1 s.machine).1 = .error e) ∧
      ((v.remove4kPages ⟨0x8001C000, by decide, by decide⟩ 1 s.machine).1 = .ok 1 ↔
        (0x8001C000 % topLevelAlign = 0 ∧ 0x8001C000 + 1 * 4096 ≤ 2 ^ 64) ∧
          ∀ p ∈ v.root.leavesIn (PageTable.slots 0x8001C000 1),
            s.machine.phys.owner p.bits = some v.root.owner) := by
  obtain ⟨s, hs, hp⟩ := exists_reachable_of_allowed_run smallHypMem (smallCalls ++ [.createPages 1])
    (fun s c hc => (List.mem_append.mp hc).elim (smallCalls_admitted s c) fun hc => by
      rw [List.mem_singleton.mp hc]; trivial)
    (fun s : System PageLog =>
      match s.principals[0]? with
      | some (Principal.vm v) =>
        match (v.remove4kPages ⟨0x8001C000, by decide, by decide⟩ 1 s.machine).1 with
        | .error _ => true
        | .ok _ => false
      | _ => false) (by decide)
  refine ⟨s, hs, ?_⟩
  revert hp
  split
  · rename_i v hv
    split
    · rename_i e he
      exact fun _ => ⟨v, hv, ⟨e, he⟩, reachable_remove4kPages_ok_iff hs hv _ 1⟩
    · nofun
  · nofun

/-! ## `add_pte_pages_builder` -/

theorem PhysPages.setPageOwner_of_lt {pp : PhysPages} {addr : PageAddr PageSize4k}
    {id : PageOwnerId} (hne : pp.owners addr.bits ≠ [])
    (hlt : (pp.owners addr.bits).length < pp.maxOwners) :
    pp.setPageOwner addr id = .ok (pp.setOwners addr.bits (id :: pp.owners addr.bits)) := by
  simp [PhysPages.setPageOwner, hne, Nat.not_le.mpr hlt]

theorem PhysPages.setPageOwner_of_le {pp : PhysPages} {addr : PageAddr PageSize4k}
    (id : PageOwnerId) (hle : pp.maxOwners ≤ (pp.owners addr.bits).length) :
    ∃ e, pp.setPageOwner addr id = .error e := by
  unfold PhysPages.setPageOwner
  dsimp only
  split_ifs <;> exact ⟨_, rfl⟩

omit [Inhabited D] [DataMeasure D] in
theorem GuestRootBuilder.addPtePage_of_room {b : GuestRootBuilder D} {page : Page4k}
    (h : b.ptePages.items.length + 1 ≤ b.ptePages.capacity) :
    b.addPtePage page = (.ok (), { b with ptePages := b.ptePages.push page }) := by
  simp [GuestRootBuilder.addPtePage, PageVec.tryReserve, h]

omit [Inhabited D] [DataMeasure D] in
theorem GuestRootBuilder.addPtePage_of_full {b : GuestRootBuilder D} {page : Page4k}
    (h : ¬b.ptePages.items.length + 1 ≤ b.ptePages.capacity) :
    b.addPtePage page = (.error .insufficientPtePageStorage, b) := by
  simp [GuestRootBuilder.addPtePage, PageVec.tryReserve, h]

omit [Inhabited D] [DataMeasure D] in
/-- Over distinct slots whose valid leaves map distinct, tracked pages, the loop of
`add_pte_pages_builder` returns `Ok` exactly when none of their owner stacks is full and the pool
has room for all of them. -/
theorem addPtePagesLoop_ok_iff : ∀ (slots : List Nat) {t : PageTable}
    {dest : GuestRootBuilder D} {m : Machine}, slots.Nodup → (t.validIn slots).Nodup →
    (∀ p ∈ t.validIn slots, m.phys.owners p.bits ≠ []) →
    ((VmPages.addPtePagesLoop slots t dest m).1 = .ok () ↔
      (∀ p ∈ t.validIn slots, (m.phys.owners p.bits).length < m.phys.maxOwners) ∧
        (t.validIn slots = [] ∨
          dest.ptePages.items.length + (t.validIn slots).length ≤ dest.ptePages.capacity))
  | [], _, _, _, _, _, _ => by simp [VmPages.addPtePagesLoop, PageTable.validIn]
  | g :: rest, t, dest, m, hs, hnd, hne => by
    obtain ⟨hg, hrest⟩ := List.nodup_cons.mp hs
    rcases hi : t.invalidateSlot g with ⟨op, t'⟩
    have hl := (PageTable.invalidateSlot_pulls hg hi).valid
    rw [hl] at hnd hne ⊢
    simp only [VmPages.addPtePagesLoop, hi]
    cases op with
    | none => simpa using addPtePagesLoop_ok_iff rest hrest hnd hne
    | some p =>
      simp only [Option.toList_some, List.singleton_append, List.forall_mem_cons,
        List.length_cons, reduceCtorEq, false_or] at hnd hne ⊢
      obtain ⟨hp, hnd'⟩ := List.nodup_cons.mp hnd
      by_cases hlt : (m.phys.owners p.bits).length < m.phys.maxOwners
      · rw [PhysPages.setPageOwner_of_lt (show m.phys.owners p.addr.bits ≠ [] from hne.1) hlt]
        by_cases hroom : dest.ptePages.items.length + 1 ≤ dest.ptePages.capacity
        · rw [GuestRootBuilder.addPtePage_of_room hroom]
          have hkeep : ∀ q ∈ t'.validIn rest, (m.phys.setOwners p.addr.bits
              (dest.pageOwnerId :: m.phys.owners p.addr.bits)).owners q.bits = m.phys.owners q.bits :=
            fun q hq => by
              rw [PhysPages.setOwners_owners, if_neg (show ¬q.bits = p.addr.bits from fun he =>
                hp (Page.ext_bits (show q.bits = p.bits from he) ▸ hq))]
          dsimp only
          rw [addPtePagesLoop_ok_iff rest hrest hnd' fun q hq => by rw [hkeep q hq]; exact hne.2 q hq,
            show (dest.ptePages.push p).capacity = dest.ptePages.capacity from rfl,
            show (dest.ptePages.push p).items.length = dest.ptePages.items.length + 1 from rfl]
          simp only [hlt, true_and]
          constructor
          · rintro ⟨hall, hr⟩
            refine ⟨fun q hq => by rw [← hkeep q hq]; exact hall q hq, ?_⟩
            rcases hr with h0 | h1
            · rw [h0]
              simpa using hroom
            · omega
          · rintro ⟨hall, hr⟩
            refine ⟨fun q hq => by rw [hkeep q hq]; exact hall q hq, .inr ?_⟩
            omega
        · rw [GuestRootBuilder.addPtePage_of_full hroom]
          simp only [reduceCtorEq, false_iff, not_and, not_le]
          intro _
          have := Nat.lt_of_not_le hroom
          omega
      · obtain ⟨e, he⟩ := PhysPages.setPageOwner_of_le dest.pageOwnerId
          (show m.phys.maxOwners ≤ (m.phys.owners p.addr.bits).length from Nat.le_of_not_lt hlt)
        rw [he]
        simp only [reduceCtorEq, false_iff, not_and]
        exact fun h => absurd h.1 hlt

omit [Inhabited D] [DataMeasure D] in
/-- What `add_pte_pages_builder` returns is what its loop returns over the range. -/
theorem addPtePagesBuilder_fst {v : VmPages D} {fromAddr : PageAddr PageSize4k} {count : Nat}
    {dest : GuestRootBuilder D} {m : Machine} {slots : List Nat}
    (hr : PageTable.invalidateRange fromAddr count = some slots) :
    (v.addPtePagesBuilder fromAddr count dest m).1 =
      (VmPages.addPtePagesLoop slots v.root dest m).1 := by
  simp only [VmPages.addPtePagesBuilder, hr]

/-- In every state reached from `from_hyp_mem` by admitted calls, `add_pte_pages_builder` from a
running VM into any guest builder returns `Ok` exactly when its range is accepted, no page of a
valid leaf of the window has a full owner stack, and the builder's pool has room for all of
those pages (or the window has no valid leaf). -/
theorem reachable_addPtePagesBuilder_ok_iff {boot : HypMem} {s : System D}
    (h : Reachable boot Admitted s) {i : Nat} {v : VmPages D}
    (hv : s.principals[i]? = some (.vm v)) (fromAddr : PageAddr PageSize4k) (count : Nat)
    (b : GuestRootBuilder D) :
    (v.addPtePagesBuilder fromAddr count b s.machine).1 = .ok () ↔
      (fromAddr.bits % topLevelAlign = 0 ∧ fromAddr.bits + count * 4096 ≤ 2 ^ 64) ∧
        (∀ p ∈ v.root.validIn (PageTable.slots fromAddr.bits count),
          (s.machine.phys.owners p.bits).length < s.machine.phys.maxOwners) ∧
        (v.root.validIn (PageTable.slots fromAddr.bits count) = [] ∨
          b.ptePages.items.length + (v.root.validIn (PageTable.slots fromAddr.bits count)).length ≤
            b.ptePages.capacity) := by
  have hw := List.getElem?_mem hv
  have hslots := PageTable.slots_nodup fromAddr.bits count
  by_cases hr : fromAddr.bits % topLevelAlign = 0 ∧ fromAddr.bits + count * 4096 ≤ 2 ^ 64
  · rw [addPtePagesBuilder_fst (PageTable.invalidateRange_of_aligned hr.1 hr.2),
      addPtePagesLoop_ok_iff (t := v.root) (m := s.machine) _ hslots
        (PageTable.validIn_nodup (h.entryPages_nodup _ hw) hslots)
        fun p hp hnil => by
          have ho := h.isolated.owned _ hw p (Principal.mem_ownedPages_of_mem_validPages
            (PageTable.mem_validPages_of_mem_validIn hp))
          simp [PhysPages.owner, hnil] at ho]
    exact (and_iff_right hr).symm
  · refine iff_of_false (fun hok => ?_) fun hrhs => hr hrhs.1
    simp only [VmPages.addPtePagesBuilder, PageTable.invalidateRange_eq_none hr] at hok
    cases hok

/-- In the small machine once the guest's builder exists, the host's `add_pte_pages_builder` over
the three valid leaves from `0x8001_8000` returns `Ok`: their stacks hold two ids of eight, and
the builder's one pool page has room for them. -/
theorem reachable_addPtePagesBuilder_ok_iff_small :
    ∃ s : System PageLog, Reachable smallHypMem Admitted s ∧ ∃ v b,
      s.principals[0]? = some (.vm v) ∧ s.principals[1]? = some (.guestBuilder b) ∧
      (v.addPtePagesBuilder ⟨0x80018000, by decide, by decide⟩ 3 b s.machine).1 = .ok () ∧
      ((v.addPtePagesBuilder ⟨0x80018000, by decide, by decide⟩ 3 b s.machine).1 = .ok () ↔
        (0x80018000 % topLevelAlign = 0 ∧ 0x80018000 + 3 * 4096 ≤ 2 ^ 64) ∧
          (∀ p ∈ v.root.validIn (PageTable.slots 0x80018000 3),
            (s.machine.phys.owners p.bits).length < s.machine.phys.maxOwners) ∧
          (v.root.validIn (PageTable.slots 0x80018000 3) = [] ∨
            b.ptePages.items.length + (v.root.validIn (PageTable.slots 0x80018000 3)).length ≤
              b.ptePages.capacity)) := by
  obtain ⟨s, hs, hp⟩ := exists_reachable_of_allowed_run smallHypMem (smallCalls.take 4)
    (fun s c hc => smallCalls_admitted s c (List.mem_of_mem_take hc))
    (fun s : System PageLog =>
      match s.principals[0]?, s.principals[1]? with
      | some (Principal.vm v), some (Principal.guestBuilder b) =>
        match (v.addPtePagesBuilder ⟨0x80018000, by decide, by decide⟩ 3 b s.machine).1 with
        | .ok _ => true
        | .error _ => false
      | _, _ => false) (by decide)
  refine ⟨s, hs, ?_⟩
  revert hp
  split
  · rename_i v b hv hb
    split
    · rename_i hok
      exact fun _ => ⟨v, b, hv, hb, hok, reachable_addPtePagesBuilder_ok_iff hs hv _ 3 b⟩
    · nofun
  · nofun

end Salus
