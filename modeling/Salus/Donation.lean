import Salus.Isolation.Conservation

/-!
# Donating pages to a child

Three facts about the operations that hand a parent's pages to a child, each with a run of the
small machine that shows it. `create_guest_root_builder` panics when its window has a hole:
its comment says the `unwrap`s cannot fail, but only the alignment of `from_addr` is checked.
Neither `create_guest_root_builder` nor `add_4k_pages_builder` zeroes the pages it hands on;
only `add_pte_pages_builder` and `remove_4k_pages` apply `CleanPage::from`. And
`create_pages` drops the builder's PTE pool, whose pages already carry the child's id.
-/

namespace Salus

variable {D : Type} [Inhabited D] [DataMeasure D]

namespace PageTable

theorem invalidateSlot_of_not_valid (t : PageTable) (g : Nat)
    (h : ∀ e, t.entry g = some e → e.valid = false) : t.invalidateSlot g = (none, t) := by
  unfold invalidateSlot
  split
  · rename_i p heq
    simpa using h _ heq
  · rfl

/-- The invalidate iterator yields nothing from slots without a valid leaf. -/
theorem invalidateNext_of_no_valid (t : PageTable) : ∀ slots : List Nat,
    (∀ g ∈ slots, ∀ e, t.entry g = some e → e.valid = false) → t.invalidateNext slots = (none, t)
  | [], _ => rfl
  | g :: rest, h => by
    simp only [invalidateNext, invalidateSlot_of_not_valid t g (h g (by simp))]
    exact invalidateNext_of_no_valid t rest fun g' hg => h g' (by simp [hg])

end PageTable

/-! ## Holes panic -/

omit [DataMeasure D] in
/-- When the six slots at a 16 KiB-aligned `from_addr` hold no valid leaf (they are unmapped, or
their pages were handed on), `create_guest_root_builder` panics as soon as it gets a guest id:
`from_pages` sees no page and its `unwrap` fails. -/
theorem createGuestRootBuilder_panics_of_no_valid (v : VmPages D) (fromAddr : PageAddr PageSize4k)
    (m : Machine) (ha : fromAddr.bits % topLevelAlign = 0) (hr : fromAddr.bits + 6 * 4096 ≤ 2 ^ 64)
    {id : PageOwnerId} {phys : PhysPages} (hid : m.phys.addActiveGuest = .ok (id, phys))
    (hw : ∀ g ∈ PageTable.slots fromAddr.bits 6, ∀ e, v.root.entry g = some e → e.valid = false) :
    v.createGuestRootBuilder fromAddr m = none := by
  simp only [VmPages.createGuestRootBuilder, show fromAddr.bits % (16 * 1024) = 0 from ha, hid,
    PageTable.invalidateRange_of_aligned ha hr, ne_eq, not_true_eq_false, ↓reduceIte]
  simp [VmPages.cleanPagesTake, VmPages.cleanPagesNext,
    PageTable.invalidateNext_of_no_valid _ _ hw, fromPages, Except.toOption]

/-- In the small machine, once the host has built its guest from the window at `0x8001_0000`,
`create_guest_root_builder` on that window panics. -/
theorem createGuestRootBuilder_panics_after_donation :
    ∃ s : System PageLog, Reachable smallHypMem AnyCall s ∧ ∃ v,
      s.principals[0]? = some (.vm v) ∧
      v.createGuestRootBuilder ⟨0x80010000, by decide, by decide⟩ s.machine = none := by
  obtain ⟨s, hs, hp⟩ := exists_reachable_of_run smallHypMem smallCalls (fun s : System PageLog =>
    match s.principals[0]?, s.machine.phys.addActiveGuest with
    | some (Principal.vm v), .ok _ =>
      (PageTable.slots 0x80010000 6).all fun g => (v.root.entry g).all fun e => !e.valid
    | _, _ => false) (by decide)
  refine ⟨s, hs, ?_⟩
  revert hp
  split
  · rename_i v _ hv hid
    intro hw
    refine ⟨v, hv, createGuestRootBuilder_panics_of_no_valid v _ s.machine (by decide) (by decide)
      hid fun g hg e he => ?_⟩
    simpa [he] using List.all_eq_true.mp hw g hg
  · nofun

/-! ## No zeroing on the unmeasured paths -/

omit [Inhabited D] in
theorem add4kPagesBuilderLoop_mem (measurePreserve : Bool) : ∀ (slots : List Nat)
    (guestAddr : Option Nat) (t : PageTable) (dest : GuestRootBuilder D) (m : Machine),
    (VmPages.add4kPagesBuilderLoop measurePreserve slots guestAddr t dest m).2.2.2.mem = m.mem
  | [], _, _, _, _ => rfl
  | g :: rest, guestAddr, t, dest, m => by
    simp only [VmPages.add4kPagesBuilderLoop]
    split
    · exact add4kPagesBuilderLoop_mem measurePreserve rest guestAddr _ dest m
    · split
      · rfl
      · split
        · rfl
        · split
          · rfl
          · exact add4kPagesBuilderLoop_mem measurePreserve rest _ _ _ _

omit [Inhabited D] in
/-- `add_4k_pages_builder` never writes memory: with `measure_preserve` false the child
receives each page with the contents the parent left in it. -/
theorem add4kPagesBuilder_mem (v : VmPages D) (fromAddr : PageAddr PageSize4k) (count : Nat)
    (dest : GuestRootBuilder D) (toAddr : PageAddr PageSize4k) (measurePreserve : Bool)
    (m : Machine) :
    (v.add4kPagesBuilder fromAddr count dest toAddr measurePreserve m).2.2.2.mem = m.mem := by
  unfold VmPages.add4kPagesBuilder
  split
  · rfl
  · exact add4kPagesBuilderLoop_mem _ _ _ _ _ _

/-- The last call of the small machine's run maps the host page at `0x8001_C000`, unmeasured,
at the guest's GPA 0: the call succeeds and the page reaches the guest with every byte still
one. -/
theorem add4kPagesBuilder_hands_on_dirty_page :
    ∃ s : System PageLog, Reachable smallHypMem AnyCall s ∧ ∃ s' b,
      s.step (.add4kPagesBuilder 0 ⟨0x8001C000, by decide, by decide⟩ 1 1 ⟨0, by decide, by decide⟩
        false) = some (s', .ok ()) ∧
      s'.principals[1]? = some (.guestBuilder b) ∧
      b.root.entry 0 = some ⟨⟨⟨0x8001C000, by decide, by decide⟩⟩, true⟩ ∧
      ¬ s'.machine.mem.Zeroed (⟨⟨0x8001C000, by decide, by decide⟩⟩ : Page4k) := by
  obtain ⟨s, hs, hp⟩ := exists_reachable_of_run smallHypMem (smallCalls.take 5)
    (fun s : System PageLog =>
      match s.step (.add4kPagesBuilder 0 ⟨0x8001C000, by decide, by decide⟩ 1 1
          ⟨0, by decide, by decide⟩ false) with
      | some (s', .ok ()) =>
        match s'.principals[1]? with
        | some (Principal.guestBuilder b) =>
          b.root.entry 0 == some ⟨⟨⟨0x8001C000, by decide, by decide⟩⟩, true⟩ &&
            s'.machine.mem 0x8001C000 0 != 0
        | _ => false
      | _ => false) (by decide)
  refine ⟨s, hs, ?_⟩
  revert hp
  split
  · rename_i s' hstep
    split
    · rename_i b hb
      intro h
      simp only [Bool.and_eq_true, beq_iff_eq, bne_iff_ne, ne_eq] at h
      exact ⟨s', b, hstep, hb, h.1, fun hz => h.2 (hz 0 (by decide))⟩
    · intro h; cases h
  · intro h; cases h

/-! ## `create_pages` drops the PTE pool -/

/-- `create_pages` keeps every exclusively held page but those of the builder's PTE pool, its
storage page and the PTE pages it has not used. -/
theorem step_createPages_perm {s s' : System D} {j : Nat} {r : Except Error Unit}
    {b : GuestRootBuilder D} (hb : s.principals[j]? = some (.guestBuilder b))
    (h : s.step (.createPages j) = some (s', r)) :
    List.Perm (s'.exclusivePages ++ b.ptePages.pages) s.exclusivePages := by
  simp only [System.step, hb, Option.some.injEq, Prod.mk.injEq] at h
  obtain ⟨rfl, -⟩ := h
  obtain ⟨hj, hget⟩ := List.getElem?_eq_some_iff.mp hb
  have hp := flatMap_set_perm Principal.heldPages (.vm b.createPages) s.principals j hj
  simp only [List.get_eq_getElem, hget] at hp
  refine List.perm_iff_count.mpr fun a => ?_
  have hc := List.perm_iff_count.mp hp a
  simp only [System.exclusivePages, Principal.heldPages, GuestRootBuilder.createPages_root,
    List.count_append] at hc ⊢
  omega

/-- In the small machine, after `create_pages` turns the builder into the guest's `VmPages`,
the page at `0x8001_4000` that held the guest's PTE pool carries the guest's id on top of its
owner stack, but the guest does not hold it: only the host's invalidated leaf remembers it. -/
theorem createPages_strands_pool_page :
    ∃ s : System PageLog, Reachable smallHypMem AnyCall s ∧
      (s.machine.phys.owners 0x80014000).head? = some ⟨2⟩ ∧
      (∃ v, s.principals[1]? = some (.vm v) ∧ v.pageOwnerId = ⟨2⟩) ∧
      ¬ s.HeldBy ⟨2⟩ ⟨⟨0x80014000, by decide, by decide⟩⟩ := by
  obtain ⟨s, hs, hp⟩ := exists_reachable_of_run smallHypMem smallCalls
    (fun s : System PageLog =>
      match s.principals[1]?, s.step (.createPages 1) with
      | some (Principal.guestBuilder b), some (s', _) =>
        decide ((⟨⟨0x80014000, by decide, by decide⟩⟩ : Page4k) ∈ b.ptePages.pages) &&
          (s'.machine.phys.owners 0x80014000).head? == some ⟨2⟩ &&
          (match s'.principals[1]? with
            | some (Principal.vm v) => v.pageOwnerId == ⟨2⟩
            | _ => false) &&
          s'.principals.all fun w => w.root.owner != ⟨2⟩ ||
            !decide ((⟨⟨0x80014000, by decide, by decide⟩⟩ : Page4k) ∈ w.root.entryPages)
      | _, _ => false) (by decide)
  revert hp
  split
  · rename_i b s' r hb hstep
    simp only [Bool.and_eq_true, beq_iff_eq, decide_eq_true_eq]
    rintro ⟨⟨⟨hpool, htop⟩, hvm⟩, hleaves⟩
    -- `create_pages` drops the pool, whose pages the state held exclusively once.
    have hnd := (step_createPages_perm hb hstep).nodup_iff.mpr
      (nodup_of_subperm hs.exclusivePages_subperm smallHypMem.nodup)
    have hout : _ ∉ s'.exclusivePages := fun h => (List.nodup_append.mp hnd).2.2 h hpool
    refine ⟨s', hs.step trivial hstep, htop, ?_, ?_⟩
    · revert hvm
      split
      · rename_i v hv; exact fun h => ⟨v, hv, beq_iff_eq.mp h⟩
      · nofun
    · rintro (⟨w, hw, ho, hheld | hentry⟩ | hloose)
      · exact hout (System.mem_exclusivePages hw hheld)
      · have := List.all_eq_true.mp hleaves w hw
        simp [ho, hentry] at this
      · exact hout (List.mem_append_right _ hloose)
  · nofun

end Salus
