import Salus.Isolation.Footprint
import Mathlib.Data.List.Pairwise

/-!
# Memory integrity and non-interference

Of all the calls of `vm_pages.rs`, only `add_pte_pages_builder` (`vm_pages.rs:99-105`) and
`remove_4k_pages` (`vm_pages.rs:146-157`) write memory, and both only zero pages through
`CleanPage`: `create_guest_root_builder` passes the pages it pulls on as they are, and
`add_4k_pages_builder` hands its pages over with their contents. `add_pte_pages_builder` zeroes
pages of the VM's valid leaves, which in every isolated state have the VM's id on top of their
owner stacks; `remove_4k_pages` zeroes the pages of the window's leaves, and when it returns
`Ok` it has popped the VM's own id off each of them.

So in every state reached by admitted calls, an admitted call changes memory only by zeroing
pages of leaves of a running VM that has its id on top of their stacks, and that no other
principal and not the caller holds. With the bound on owner stacks of `Footprint`, the same
isolation fact gives non-interference: an admitted call leaves every principal it does not name
as it was, with the owner stacks and the contents of all the pages it holds.
-/

namespace Salus

variable {D : Type} [Inhabited D] [DataMeasure D]

/-- A page whose contents changed was zeroed, and it is a page of the list. -/
theorem Memory.Cleaned.changed {mem mem' : Memory} {l : List Page4k} (h : mem.Cleaned l mem')
    {a o : Nat} (hne : mem' a o ≠ mem a o) : mem' a o = 0 ∧ ∃ p ∈ l, p.bits = a := by
  by_cases hpos : 0 < l.countP fun p => p.bits == a
  · obtain ⟨p, hp, hb⟩ := List.countP_pos_iff.mp hpos
    exact ⟨by rw [h, if_pos hpos], p, hp, beq_iff_eq.mp hb⟩
  · rw [h, if_neg hpos] at hne
    exact absurd rfl hne

namespace System

omit [Inhabited D] [DataMeasure D] in
/-- In an isolated state, a page of a leaf of a running VM whose id is on top of the page's
stack is held by no other principal and not by the caller. -/
theorem Isolated.sole_holder {s : System D} (hs : s.Isolated) {w : Principal D}
    (hw : w ∈ s.principals) {p : Page4k} (ho : s.machine.phys.owner p.bits = some w.root.owner)
    (hp : p ∈ w.root.entryPages) :
    (∀ w' ∈ s.principals, ∀ q ∈ w'.heldPages, q.bits = p.bits → w' = w) ∧
      ∀ q ∈ s.loose, q.bits ≠ p.bits := by
  have hnd := List.nodup_append.mp hs.nodup
  rcases PageTable.mem_of_mem_entryPages hp with hv | hi
  · have hheld := Principal.mem_heldPages_of_mem_ownedPages
      (Principal.mem_ownedPages_of_mem_validPages hv)
    refine ⟨fun w' hw' q hq hb => ?_, fun q hq hb => ?_⟩
    · rw [Page.ext_bits hb] at hq
      by_contra hne
      exact (List.nodup_flatMap.mp hnd.1).2.forall (fun _ _ h _ h₁ h₂ => h h₂ h₁ :
        Symmetric (List.Disjoint on Principal.heldPages)) hw' hw hne hq hheld
    · rw [Page.ext_bits hb] at hq
      exact hnd.2.2 (List.mem_flatMap.mpr ⟨w, hw, hheld⟩) hq
  · have hnot := hs.forgotten w hw p hi ho
    refine ⟨fun w' hw' q hq hb => ?_, fun q hq hb => ?_⟩
    · rw [Page.ext_bits hb] at hq
      exact absurd (mem_exclusivePages hw' hq) hnot
    · rw [Page.ext_bits hb] at hq
      exact hnot (List.mem_append_right _ hq)

/-- The memory of `s'` is that of `s` but for zeroed pages, each a page of a leaf of a running VM
of `s` with that VM's id on top of its owner stack. -/
def ZeroesOwnPages (s s' : System D) : Prop :=
  ∀ a o, s'.machine.mem a o ≠ s.machine.mem a o → s'.machine.mem a o = 0 ∧
    ∃ w ∈ s.principals, w.isVm = true ∧ ∃ p ∈ w.root.entryPages, p.bits = a ∧
      s.machine.phys.owner p.bits = some w.root.owner

/-- Every admitted call from an isolated state only zeroes pages of a running VM's own
leaves. -/
theorem zeroesOwnPages_step {s s' : System D} {c : Call} {r : Except Error Unit}
    (hs : s.Isolated) (ha : Admitted s c) (h : s.step c = some (s', r)) : ZeroesOwnPages s s' := by
  intro a o hne
  obtain ⟨l, z, -, hz, hw⟩ := step_writesWithin hs ha h
  obtain ⟨h0, p, hp, rfl⟩ := hz.changed hne
  rcases hw with ⟨-, rfl⟩ | ⟨i, -, v, hv, hzl, hl⟩
  · nomatch hp
  · exact ⟨h0, .vm v, List.getElem?_mem hv, rfl, p, (hl p (hzl p hp)).1, rfl, (hl p (hzl p hp)).2⟩

section Frame

omit [Inhabited D] [DataMeasure D]

/-- In an isolated state a principal stands at one index only. -/
theorem Isolated.index_unique {s : System D} (hs : s.Isolated) {k i : Nat} {w : Principal D}
    (hk : s.principals[k]? = some w) (hi : s.principals[i]? = some w) : k = i := by
  obtain ⟨hk', rfl⟩ := List.getElem?_eq_some_iff.mp hk
  obtain ⟨hi', he⟩ := List.getElem?_eq_some_iff.mp hi
  exact ((hs.idsNodup.of_map _).getElem_inj_iff).mp he.symm

/-- What a call writes within the caller's pages or the leaves of a VM it names, no principal
at another index holds: each page such a principal holds keeps its owner stack and its
contents. -/
theorem WritesWithin.spares {s s' : System D} {ks : List Nat} (hs : s.Isolated)
    (hw : s.WritesWithin s' ks) {k : Nat} {w : Principal D} (hk : s.principals[k]? = some w)
    (hkc : k ∉ ks) {q : Page4k} (hq : q ∈ w.heldPages) :
    s'.machine.phys.owners q.bits = s.machine.phys.owners q.bits ∧
      ∀ o, s'.machine.mem q.bits o = s.machine.mem q.bits o := by
  obtain ⟨l, z, hown, hz, hlz⟩ := hw
  have hwm := List.getElem?_mem hk
  have hfar : ∀ p ∈ l, p.bits ≠ q.bits := by
    intro p hp hb
    rw [Page.ext_bits hb] at hp
    rcases hlz with ⟨hl, -⟩ | ⟨i, hi, v, hv, -, hl⟩
    · exact (List.nodup_append.mp hs.nodup).2.2 (List.mem_flatMap.mpr ⟨w, hwm, hq⟩) (hl q hp)
    · obtain ⟨hpe, ho⟩ := hl q hp
      obtain rfl := (hs.sole_holder (List.getElem?_mem hv) ho hpe).1 w hwm q hq rfl
      exact hkc (by rwa [hs.index_unique hk hv])
  have hzero : z.countP (fun p => p.bits == q.bits) = 0 := by
    refine List.countP_eq_zero.mpr fun p hp => ?_
    rcases hlz with ⟨-, rfl⟩ | ⟨-, -, -, -, hzl, -⟩
    · nomatch hp
    · simpa using hfar p (hzl p hp)
  exact ⟨hown _ hfar, fun o => by rw [hz, hzero]; rfl⟩

theorem getElem?_set_of_ne {ps : List (Principal D)} {k i : Nat} {w x : Principal D}
    (hki : k ≠ i) (hk : ps[k]? = some w) : (ps.set i x)[k]? = some w := by
  rwa [List.getElem?_set_ne (Ne.symm hki)]

end Frame

/-- A call leaves every principal it does not name at its index. -/
theorem step_getElem?_of_not_mem {s s' : System D} {c : Call} {r : Except Error Unit}
    (h : s.step c = some (s', r)) {k : Nat} {w : Principal D} (hk : s.principals[k]? = some w)
    (hkc : k ∉ c.names) : s'.principals[k]? = some w := by
  obtain ⟨m, ps, L⟩ := s
  have hbuilder : ∀ {j page} {f : GuestRootBuilder D → Except Error Unit × GuestRootBuilder D},
      (System.mk m ps L).builderCall j page f = some (s', r) → k ≠ j →
        s'.principals[k]? = some w := fun h hkj => by
    obtain ⟨b, -, -, rfl⟩ := builderCall_eq_some h
    exact getElem?_set_of_ne hkj hk
  cases c with
  | add4kDataPages i toAddr pages =>
    obtain ⟨b, b', phys', -, -, -, rfl⟩ := hostCall_eq_some h
    exact getElem?_set_of_ne (List.ne_of_not_mem_cons hkc) hk
  | add4kPages i toAddr pages =>
    obtain ⟨b, b', phys', -, -, -, rfl⟩ := hostCall_eq_some h
    exact getElem?_set_of_ne (List.ne_of_not_mem_cons hkc) hk
  | createHost i =>
    obtain ⟨b, -, rfl⟩ := step_createHost h
    exact getElem?_set_of_ne (List.ne_of_not_mem_cons hkc) hk
  | createGuestRootBuilder i fromAddr =>
    obtain ⟨v, r', v', m', -, -, h⟩ := step_createGuestRootBuilder h
    have hset := getElem?_set_of_ne (x := .vm v') (List.ne_of_not_mem_cons hkc) hk
    rcases r' with _ | ⟨b, sp⟩ <;> (dsimp only at h; subst h)
    · exact hset
    · exact (List.getElem?_append_left (List.getElem?_eq_some_iff.mp hset).1).trans hset
  | addPtePagesBuilder i fromAddr count j =>
    obtain ⟨v, b, v', b', m', -, -, -, rfl⟩ := step_addPtePagesBuilder h
    exact getElem?_set_of_ne (List.ne_of_not_mem_cons (List.not_mem_of_not_mem_cons hkc))
      (getElem?_set_of_ne (List.ne_of_not_mem_cons hkc) hk)
  | add4kPagesBuilder i fromAddr count j toAddr measurePreserve =>
    obtain ⟨v, b, r', v', b', m', -, -, -, rfl⟩ := step_add4kPagesBuilder h
    exact getElem?_set_of_ne (List.ne_of_not_mem_cons (List.not_mem_of_not_mem_cons hkc))
      (getElem?_set_of_ne (List.ne_of_not_mem_cons hkc) hk)
  | remove4kPages i fromAddr count =>
    obtain ⟨v, r', v', m', -, -, rfl⟩ := step_remove4kPages h
    exact getElem?_set_of_ne (List.ne_of_not_mem_cons hkc) hk
  | addPtePage j page => exact hbuilder h (List.ne_of_not_mem_cons hkc)
  | addDataPage j gpa page =>
    exact hbuilder (show (System.mk m ps L).builderCall j page
      (fun b => b.addDataPage gpa page) = _ from h) (List.ne_of_not_mem_cons hkc)
  | addZeroPage j gpa page =>
    exact hbuilder (show (System.mk m ps L).builderCall j page
      (fun b => b.addZeroPage gpa page) = _ from h) (List.ne_of_not_mem_cons hkc)
  | createPages j =>
    obtain ⟨b, -, rfl⟩ := step_createPages h
    exact getElem?_set_of_ne (List.ne_of_not_mem_cons hkc) hk

end System

/-- In every state reached from `from_hyp_mem` by admitted calls, an admitted call changes memory
only by zeroing pages, and only pages of leaves of a running VM whose id is on top of the page's
owner stack; no other principal and not the caller holds such a page. -/
theorem admitted_step_zeroes_own_pages {boot : HypMem} {s s' : System D} {c : Call}
    {r : Except Error Unit} (h : Reachable boot Admitted s) (ha : Admitted s c)
    (hstep : s.step c = some (s', r)) :
    ∀ a o, s'.machine.mem a o ≠ s.machine.mem a o → s'.machine.mem a o = 0 ∧
      ∃ w ∈ s.principals, w.isVm = true ∧ ∃ p ∈ w.root.entryPages, p.bits = a ∧
        s.machine.phys.owner p.bits = some w.root.owner ∧
        (∀ w' ∈ s.principals, ∀ q ∈ w'.heldPages, q.bits = a → w' = w) ∧
        ∀ q ∈ s.loose, q.bits ≠ a := by
  intro a o hne
  obtain ⟨h0, w, hw, hvm, p, hp, rfl, ho⟩ := System.zeroesOwnPages_step h.isolated ha hstep a o hne
  exact ⟨h0, w, hw, hvm, p, hp, rfl, ho, h.isolated.sole_holder hw ho hp⟩

/-- In the small machine, the host's `add_pte_pages_builder` over the window at `0x8001_8000`
zeroes the pages it hands to the guest's pool, pages of the host's own leaves. -/
theorem admitted_step_zeroes_own_pages_small :
    ∃ s : System PageLog, Reachable smallHypMem Admitted s ∧ ∃ s' r,
      Admitted s (.addPtePagesBuilder 0 ⟨0x80018000, by decide, by decide⟩ 3 1) ∧
      s.step (.addPtePagesBuilder 0 ⟨0x80018000, by decide, by decide⟩ 3 1) = some (s', r) ∧
      s.machine.mem 0x80018000 0 = 1 ∧ s'.machine.mem 0x80018000 0 = 0 ∧
      ∀ a o, s'.machine.mem a o ≠ s.machine.mem a o → s'.machine.mem a o = 0 ∧
        ∃ w ∈ s.principals, w.isVm = true ∧ ∃ p ∈ w.root.entryPages, p.bits = a ∧
          s.machine.phys.owner p.bits = some w.root.owner ∧
          (∀ w' ∈ s.principals, ∀ q ∈ w'.heldPages, q.bits = a → w' = w) ∧
          ∀ q ∈ s.loose, q.bits ≠ a := by
  obtain ⟨s, hs, hp⟩ := exists_reachable_of_allowed_run smallHypMem (smallCalls.take 4)
    (fun s c hc => smallCalls_admitted s c (List.mem_of_mem_take hc))
    (fun s : System PageLog =>
      s.machine.mem 0x80018000 0 == 1 &&
        match s.step (.addPtePagesBuilder 0 ⟨0x80018000, by decide, by decide⟩ 3 1) with
        | some (s', _) => s'.machine.mem 0x80018000 0 == 0
        | none => false) (by decide)
  refine ⟨s, hs, ?_⟩
  revert hp
  split
  · rename_i s' r hstep
    intro hp
    simp only [Bool.and_eq_true, beq_iff_eq] at hp
    have ha : Admitted s (.addPtePagesBuilder 0 ⟨0x80018000, by decide, by decide⟩ 3 1) := trivial
    exact ⟨s', r, ha, hstep, hp.1, hp.2, admitted_step_zeroes_own_pages hs ha hstep⟩
  · simp

/-- In every state reached from `from_hyp_mem` by admitted calls, an admitted call leaves every
principal it does not name as it was and where it was, and changes neither the owner stack nor
the contents of any page such a principal holds. -/
theorem admitted_step_spares_unnamed {boot : HypMem} {s s' : System D} {c : Call}
    {r : Except Error Unit} (h : Reachable boot Admitted s) (ha : Admitted s c)
    (hstep : s.step c = some (s', r)) {k : Nat} {w : Principal D}
    (hk : s.principals[k]? = some w) (hkc : k ∉ c.names) :
    s'.principals[k]? = some w ∧ ∀ q ∈ w.heldPages,
      s'.machine.phys.owners q.bits = s.machine.phys.owners q.bits ∧
        ∀ o, s'.machine.mem q.bits o = s.machine.mem q.bits o :=
  ⟨System.step_getElem?_of_not_mem hstep hk hkc, fun _ hq =>
    (System.step_writesWithin h.isolated ha hstep).spares h.isolated hk hkc hq⟩

/-- In the small machine with the guest running, the guest's `remove_4k_pages` over its GPA 0
pops the guest's id off the page at `0x8001_C000`, a leaf the host invalidated, and leaves the
host, at index 0, with every page it holds as it was. -/
theorem admitted_step_spares_unnamed_small :
    ∃ s : System PageLog, Reachable smallHypMem Admitted s ∧ ∃ s' r w,
      Admitted s (.remove4kPages 1 ⟨0, by decide, by decide⟩ 1) ∧
      s.step (.remove4kPages 1 ⟨0, by decide, by decide⟩ 1) = some (s', r) ∧
      s.principals[0]? = some w ∧ 0 ∉ (Call.remove4kPages 1 ⟨0, by decide, by decide⟩ 1).names ∧
      s'.machine.phys.owners 0x8001C000 ≠ s.machine.phys.owners 0x8001C000 ∧
      s'.principals[0]? = some w ∧ ∀ q ∈ w.heldPages,
        s'.machine.phys.owners q.bits = s.machine.phys.owners q.bits ∧
          ∀ o, s'.machine.mem q.bits o = s.machine.mem q.bits o := by
  obtain ⟨s, hs, hp⟩ := exists_reachable_of_allowed_run smallHypMem (smallCalls ++ [.createPages 1])
    (fun s c hc => (List.mem_append.mp hc).elim (smallCalls_admitted s c) fun hc => by
      rw [List.mem_singleton.mp hc]; trivial)
    (fun s : System PageLog =>
      match s.principals[0]?, s.principals[1]? with
      | some _, some (Principal.vm v) =>
        match v.remove4kPages ⟨0, by decide, by decide⟩ 1 s.machine with
        | (.ok 1, _, m') => m'.phys.owners 0x8001C000 != s.machine.phys.owners 0x8001C000
        | _ => false
      | _, _ => false) (by decide)
  refine ⟨s, hs, ?_⟩
  revert hp
  split
  · rename_i w v hw hv
    split
    · rename_i v' m' hr
      intro hne
      have ha : Admitted s (.remove4kPages 1 ⟨0, by decide, by decide⟩ 1) := fun v₁ hv₁ a => by
        rw [hv] at hv₁
        cases hv₁
        rw [hr]
        nofun
      have hstep : s.step (.remove4kPages 1 ⟨0, by decide, by decide⟩ 1) =
          some (⟨m', s.principals.set 1 (.vm v'), s.loose⟩, .ok ()) := by
        simp only [System.step, hv, hr]
        rfl
      exact ⟨_, _, w, ha, hstep, hw, by decide, by simpa using hne,
        admitted_step_spares_unnamed hs ha hstep hw (by decide)⟩
    · nofun
  · nofun

end Salus
