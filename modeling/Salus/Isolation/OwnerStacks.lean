import Salus.Isolation.Ids

/-!
# The bottom of every owner stack

The calls of `vm_pages.rs` reach `PhysPages` through three operations alone: `set_page_owner`
pushes onto a tracked page's stack (`vm_pages.rs:72, 102, 127, 244, 271`), `pop_owner` pops one
(`vm_pages.rs:151`) and never its last entry, and `add_active_guest` (`vm_pages.rs:64`) touches
no stack. A relation on `PhysPages` that every one of them keeps is kept by every call. The
relation "every stack keeps its bottom" is one of them.

`PageState::from` gives every page `HypPageAlloc` hands out the hypervisor as its sole owner, and
every page the system holds, in a leaf of a table, valid or invalidated, a node, a root, a PTE
pool or the caller's hands, is one of those. So in every reachable state every page held has an
owner stack of depth at least one with the hypervisor at the bottom.
-/

namespace Salus

variable {D : Type} [Inhabited D] [DataMeasure D]

namespace PhysPages

/-- A relation between two states of `PhysPages` that is reflexive and transitive and holds
across `set_page_owner`, `pop_owner` and `add_active_guest`. -/
structure Preorder (R : PhysPages → PhysPages → Prop) : Prop where
  refl : ∀ pp, R pp pp
  trans : ∀ {pp pp₁ pp₂}, R pp pp₁ → R pp₁ pp₂ → R pp pp₂
  set : ∀ {pp pp' addr id}, pp.setPageOwner addr id = .ok pp' → R pp pp'
  pop : ∀ {pp pp' addr top}, pp.popOwner addr = .ok (top, pp') → R pp pp'
  add : ∀ {pp pp' id}, pp.addActiveGuest = .ok (id, pp') → R pp pp'

/-- `pp'` keeps the bottom of every owner stack of `pp`, and so which pages are tracked. -/
def SameBottoms (pp pp' : PhysPages) : Prop :=
  ∀ a, (pp'.owners a).getLast? = (pp.owners a).getLast?

theorem getLast?_cons_of_ne_nil {x : PageOwnerId} {st : List PageOwnerId} (h : st ≠ []) :
    (x :: st).getLast? = st.getLast? := by
  cases st with
  | nil => exact absurd rfl h
  | cons y st => rfl

theorem sameBottoms_preorder : Preorder SameBottoms where
  refl _ _ := rfl
  trans h₁ h₂ a := (h₂ a).trans (h₁ a)
  set h a := by
    obtain ⟨hne, rfl⟩ := setPageOwner_eq_ok h
    simp only [setOwners_owners]
    split
    · subst a
      exact getLast?_cons_of_ne_nil hne
    · rfl
  pop h a := by
    obtain ⟨below, hne, hst, rfl⟩ := popOwner_eq_ok h
    simp only [setOwners_owners]
    split
    · subst a
      rw [hst, getLast?_cons_of_ne_nil hne]
    · rfl
  add h a := by rw [(addActiveGuest_eq_ok h).2.1]

end PhysPages

namespace System

section Preorder

variable {R : PhysPages → PhysPages → Prop}

/-! ## The loops keep any such relation -/

theorem preorder_keptByMap (hR : PhysPages.Preorder R) (pp : PhysPages) :
    KeptByMap fun _ _ _ phys => R pp phys where
  map hq hset := hR.trans hq (hR.set hset)
  drop hq := hq

omit [Inhabited D] [DataMeasure D] in
theorem preorder_keptByHandOver (hR : PhysPages.Preorder R) (pp : PhysPages) :
    KeptByHandOver (D := D) fun _ _ m => R pp m.phys where
  drop _ hq _ hm := hm ▸ hq
  put _ hq hset _ _ hm := hm ▸ hR.trans hq (hR.set hset)

omit [Inhabited D] [DataMeasure D] in
theorem preorder_keptByUnmap (hR : PhysPages.Preorder R) (ownerId : PageOwnerId)
    (pp : PhysPages) : KeptByUnmap ownerId fun _ _ m => R pp m.phys where
  pop _ hq hpop := hR.trans hq (hR.pop hpop)
  stop _ hq hphys := by
    rcases hphys with rfl | ⟨_, hpop⟩
    · exact hq
    · exact hR.trans hq (hR.pop hpop)

omit [Inhabited D] [DataMeasure D] in
theorem preorder_keptByPull (hR : PhysPages.Preorder R) (id : PageOwnerId) (pp : PhysPages) :
    KeptByPull id fun (_ : List Page4k) _ phys => R pp phys where
  pull _ hq hset := hR.trans hq (hR.set hset)

/-! ## Every call keeps it -/

omit [DataMeasure D] in
theorem createGuestRootBuilder_preorder (hR : PhysPages.Preorder R) {v v' : VmPages D}
    {fromAddr : PageAddr PageSize4k} {m m' : Machine}
    {r : Except Error (GuestRootBuilder D × Page4k)}
    (h : v.createGuestRootBuilder fromAddr m = some (r, v', m')) : R m.phys m'.phys := by
  rcases r with e | ⟨b, sp⟩
  · obtain ⟨-, rfl | ⟨-, -, hid⟩⟩ := createGuestRootBuilder_error h
    · exact hR.refl _
    · exact hR.add hid
  · rcases createGuestRootBuilder_eq_some h with ⟨-, -, -, -, _, he⟩ |
      ⟨phys₁, _, _, _, _, _, _, _, _, _, _, _, _, hid, htake, hnext₁, hnext₂, -⟩
    · cases he
    exact hR.trans (hR.add hid)
      (cleanPages_induct (preorder_keptByPull hR _ phys₁) htake hnext₁ hnext₂ (hR.refl _))

/-- Every call relates the `PhysPages` before it to the one after it. -/
theorem preorder_step (hR : PhysPages.Preorder R) {s s' : System D} {c : Call}
    {r : Except Error Unit} (h : s.step c = some (s', r)) : R s.machine.phys s'.machine.phys := by
  obtain ⟨m, ps, L⟩ := s
  have hbuilder : ∀ {j page} {f : GuestRootBuilder D → Except Error Unit × GuestRootBuilder D},
      (System.mk m ps L).builderCall j page f = some (s', r) → R m.phys s'.machine.phys :=
    fun h => by
      obtain ⟨b, -, -, rfl⟩ := builderCall_eq_some h
      exact hR.refl _
  cases c with
  | add4kDataPages i toAddr pages =>
    obtain ⟨b, b', phys', -, -, hf, rfl⟩ := hostCall_eq_some h
    exact add4kDataPagesLoop_induct (preorder_keptByMap hR m.phys) pages (add4kDataPages_loop hf)
      (hR.refl _)
  | add4kPages i toAddr pages =>
    obtain ⟨b, b', phys', -, -, hf, rfl⟩ := hostCall_eq_some h
    obtain ⟨_, hl⟩ := add4kPages_loop default hf
    exact add4kDataPagesLoop_induct (preorder_keptByMap hR m.phys) pages hl (hR.refl _)
  | createHost i =>
    obtain ⟨b, -, rfl⟩ := step_createHost h
    exact hR.refl _
  | createGuestRootBuilder i fromAddr =>
    obtain ⟨v, r', v', m', -, hc, h⟩ := step_createGuestRootBuilder h
    have hm : s'.machine = m' := by
      rcases r' with _ | ⟨b, sp⟩ <;> (dsimp only at h; rw [h])
    exact hm ▸ createGuestRootBuilder_preorder hR hc
  | addPtePagesBuilder i fromAddr count j =>
    obtain ⟨v, b, v', b', m', -, -, hc, rfl⟩ := step_addPtePagesBuilder h
    obtain ⟨slots, _, hl, -⟩ := VmPages.addPtePagesBuilder_eq_loop hc
    exact addPtePagesLoop_induct (preorder_keptByHandOver hR m.phys) slots hl (hR.refl _)
  | add4kPagesBuilder i fromAddr count j toAddr measurePreserve =>
    obtain ⟨v, b, _, v', b', m', -, -, hc, rfl⟩ := step_add4kPagesBuilder h
    obtain ⟨slots, _, hl, -⟩ := VmPages.add4kPagesBuilder_eq_loop hc
    exact add4kPagesBuilderLoop_induct (preorder_keptByHandOver hR m.phys) measurePreserve slots
      hl (hR.refl _)
  | remove4kPages i fromAddr count =>
    obtain ⟨v, r', v', m', -, hc, rfl⟩ := step_remove4kPages h
    obtain ⟨slots, _, hl, -, -⟩ := VmPages.remove4kPages_eq_loop hc
    exact remove4kPagesLoop_induct (preorder_keptByUnmap hR _ m.phys) slots hl (hR.refl _)
  | addPtePage j page => exact hbuilder h
  | addDataPage j gpa page =>
    exact hbuilder (show (System.mk m ps L).builderCall j page
      (fun b => b.addDataPage gpa page) = _ from h)
  | addZeroPage j gpa page =>
    exact hbuilder (show (System.mk m ps L).builderCall j page
      (fun b => b.addZeroPage gpa page) = _ from h)
  | createPages j =>
    obtain ⟨b, -, rfl⟩ := step_createPages h
    exact hR.refl _

/-- Every run from boot relates the boot `PhysPages` to the current one. -/
theorem Reachable.preorder (hR : PhysPages.Preorder R) {boot : HypMem}
    {allowed : System D → Call → Prop} {s : System D} (h : Reachable boot allowed s) :
    R boot.physPages s.machine.phys := by
  induction h with
  | init hb =>
    obtain ⟨_, -, rfl⟩ := boot_eq_some hb
    exact hR.refl _
  | step _ _ hs ih => exact hR.trans ih (preorder_step hR hs)

end Preorder

end System

/-- In every state reached from `from_hyp_mem` by any calls, whatever they return, every
tracked page's owner stack has the hypervisor at its bottom. Every page a principal holds (in a
leaf of its table, valid or invalidated, a node, its root or its PTE pool) and every page handle
the caller holds is tracked: its stack has depth at least one, with the hypervisor at the bottom.
No call from such a state changes the bottom of any stack. -/
theorem reachable_owner_stacks_rest_on_hypervisor {boot : HypMem}
    {allowed : System D → Call → Prop} {s : System D} (h : Reachable boot allowed s) :
    (∀ a, s.machine.phys.owners a ≠ [] →
      (s.machine.phys.owners a).getLast? = some .hypervisor) ∧
    (∀ o p, s.HeldBy o p → (s.machine.phys.owners p.bits).getLast? = some .hypervisor) ∧
    ∀ c s' r, s.step c = some (s', r) →
      ∀ a, (s'.machine.phys.owners a).getLast? = (s.machine.phys.owners a).getLast? := by
  have hb : ∀ a, (s.machine.phys.owners a).getLast? =
      (if a ∈ boot.pages.map Page.bits then [PageOwnerId.hypervisor] else []).getLast? :=
    System.Reachable.preorder PhysPages.sameBottoms_preorder h
  refine ⟨fun a ha => ?_, fun _ p hp => ?_,
    fun _ _ _ hs => System.preorder_step PhysPages.sameBottoms_preorder hs⟩
  · have hl := hb a
    split at hl
    · rw [hl]
      rfl
    · exact absurd (List.getLast?_eq_none_iff.mp hl) ha
  · rw [hb, if_pos (List.mem_map_of_mem _ (h.heldBy_mem_boot hp))]
    rfl

/-- After the small machine's run, the page the guest maps at GPA 0 has the guest, the host and
the hypervisor on its stack, the hypervisor at the bottom. -/
theorem smallCalls_owner_stacks_rest_on_hypervisor :
    ∃ s : System PageLog, Reachable smallHypMem AnyCall s ∧
      s.machine.phys.owners 0x8001C000 = [⟨2⟩, ⟨1⟩, ⟨0⟩] ∧
      (∀ a, s.machine.phys.owners a ≠ [] →
        (s.machine.phys.owners a).getLast? = some .hypervisor) ∧
      (∀ o p, s.HeldBy o p → (s.machine.phys.owners p.bits).getLast? = some .hypervisor) ∧
      ∀ c s' r, s.step c = some (s', r) →
        ∀ a, (s'.machine.phys.owners a).getLast? = (s.machine.phys.owners a).getLast? := by
  obtain ⟨s, hs, hp⟩ := exists_reachable_of_run smallHypMem smallCalls
    (fun s : System PageLog => s.machine.phys.owners 0x8001C000 == [⟨2⟩, ⟨1⟩, ⟨0⟩]) (by decide)
  exact ⟨s, hs, beq_iff_eq.mp hp, reachable_owner_stacks_rest_on_hypervisor hs⟩

end Salus
