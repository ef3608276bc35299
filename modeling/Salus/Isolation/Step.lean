import Salus.Isolation.Leaves

/-!
# Isolation over every run of admitted calls

`from_hyp_mem` starts isolated, and each call keeps the system isolated when it is admitted:
a page handed to a guest builder directly has that builder's id on top of its owner stack, as
every method of `VmPages` sets it before it passes a page on (`vm_pages.rs:99-104`,
`vm_pages.rs:124-133`), and `remove_4k_pages` does not fail with `UnownedPage`. The code does not
ensure the second: it pops the page's owner stack before it compares the popped owner with its
own id (`vm_pages.rs:149-155`), so over a page the VM has handed on it strips the child's id and
leaves the child's table mapping a page it no longer owns (`Reclaim`). Every state reached by
admitted calls is isolated.
-/

namespace Salus

variable {D : Type} [Inhabited D] [DataMeasure D]

/-- The admitted calls: a page given to a guest builder directly has the builder's id on top of
its stack, and `remove_4k_pages` does not fail with `UnownedPage`. -/
def Admitted (s : System D) : Call → Prop
  | .addPtePage j page | .addDataPage j _ page | .addZeroPage j _ page =>
    ∀ b, s.principals[j]? = some (.guestBuilder b) →
      s.machine.phys.owner page.bits = some b.root.owner
  | .remove4kPages i fromAddr count =>
    ∀ v, s.principals[i]? = some (.vm v) →
      ∀ a, (v.remove4kPages fromAddr count s.machine).1 ≠ .error (.unownedPage a)
  | _ => True

namespace System

omit [DataMeasure D] in
/-- `from_hyp_mem` holds the host's root and PTE reservoir in its builder, and hands the host's
pages to the caller. -/
theorem boot_isolated {m : HypMem} {s : System D} (h : boot m = some s) : s.Isolated := by
  have hpages := boot_exclusivePages h
  obtain ⟨rootSeq, -, rfl⟩ := boot_eq_some h
  refine ⟨hpages ▸ m.nodup, ?_, ?_, ?_, by simp, ?_⟩
  all_goals simp [Principal.ownedPages, Principal.root, PageTable.validPages,
    PageTable.invalidPages, HypMem.physPages, PageOwnerId.host]

section Calls

variable {m : Machine} {ps : List (Principal D)} {L : List Page4k} {s' : System D}
  {r : Except Error Unit} {i j : Nat} {fromAddr : PageAddr PageSize4k} {count : Nat}

omit [Inhabited D] in
/-- The host builder's calls map pages the caller holds, through the loop of
`add_4k_data_pages` with some measurement; the pages the loop does not reach are dropped. -/
theorem Isolated.hostCall (hs : (System.mk m ps L).Isolated) {pages : List Page4k}
    {toAddr : PageAddr PageSize4k}
    {f : HostRootBuilder D → PhysPages → Option (HostRootBuilder D × PhysPages)}
    (hf : ∀ b phys b' phys', f b phys = some (b', phys') → ∃ d d' : D,
      HostRootBuilder.add4kDataPagesLoop pages (some toAddr.bits) d b.root b.ptePages phys =
        some (d', b'.root, b'.ptePages, phys'))
    (h : (System.mk m ps L).hostCall i pages f = some (s', r)) : s'.Isolated := by
  obtain ⟨b, b', phys', hb, hsub, hfb, rfl⟩ := hostCall_eq_some h
  obtain ⟨_, _, hloop⟩ := hf _ _ _ _ hfb
  have hi : i < ps.length := (List.getElem?_eq_some_iff.mp hb).1
  have hperm : (pages ++ L.diff pages).Perm L :=
    List.subperm_append_diff_self_of_count_le fun x _ => hsub.count_le x
  have hs₁ : (System.mk ⟨m.phys, m.mem⟩ (ps.set i (.hostBuilder ⟨b.root, b.ptePages,
      b.measurement⟩)) (pages ++ L.diff pages)).Isolated := by
    rw [set_of_getElem?_eq hb]
    exact hs.subperm_loose hperm.subperm
  have hs₂ : (System.mk ⟨phys', m.mem⟩ (ps.set i (.hostBuilder ⟨b'.root, b'.ptePages,
      b.measurement⟩)) (L.diff pages)).Isolated :=
    add4kDataPagesLoop_induct (isolated_keptByMap hi (L.diff pages) m.mem b.measurement) pages
      hloop hs₁
  have hs₃ : (System.mk ⟨phys', m.mem⟩ ((ps.set i _).set i (.hostBuilder b'))
      (L.diff pages)).Isolated :=
    hs₂.shrink (List.getElem?_set_self hi) (List.Subperm.refl _) rfl rfl rfl id
  simpa only [List.set_set] using hs₃

/-- `create_host` keeps the host's table and drops its PTE reservoir. -/
theorem Isolated.createHost (hs : (System.mk m ps L).Isolated)
    (h : (System.mk m ps L).step (.createHost i) = some (s', r)) : s'.Isolated := by
  obtain ⟨b, hb, rfl⟩ := step_createHost h
  exact hs.shrink hb (List.sublist_append_left _ _).subperm rfl rfl rfl (by simp [Principal.isVm])

/-- `create_pages` keeps the guest's table and drops its PTE pool. -/
theorem Isolated.createPages (hs : (System.mk m ps L).Isolated)
    (h : (System.mk m ps L).step (.createPages j) = some (s', r)) : s'.Isolated := by
  obtain ⟨b, hb, rfl⟩ := step_createPages h
  exact hs.shrink hb (List.sublist_append_left _ _).subperm rfl rfl rfl (by simp [Principal.isVm])

theorem Isolated.createGuestRootBuilder (hs : (System.mk m ps L).Isolated)
    (h : (System.mk m ps L).step (.createGuestRootBuilder i fromAddr) = some (s', r)) :
    s'.Isolated := by
  obtain ⟨v, r', v', m', hv, hc, h⟩ := step_createGuestRootBuilder h
  have := createGuestRootBuilder_isolated hv hs hc
  rcases r' with _ | ⟨b, sp⟩ <;> (dsimp only at h; subst h; exact this)

theorem Isolated.addPtePagesBuilder (hs : (System.mk m ps L).Isolated)
    (h : (System.mk m ps L).step (.addPtePagesBuilder i fromAddr count j) = some (s', r)) :
    s'.Isolated := by
  obtain ⟨v, b, ⟨root', meas'⟩, b', m', hv, hb, hc, rfl⟩ := step_addPtePagesBuilder h
  obtain ⟨slots, _, hl, rfl⟩ := VmPages.addPtePagesBuilder_eq_loop hc
  have hs' : (System.mk m (withPair ps i j (.vm v) (.guestBuilder b)) L).Isolated := by
    rwa [withPair_self hv hb]
  exact addPtePagesLoop_induct (isolated_keptByHandOver (ne_of_vm_guestBuilder hv hb)
    (List.getElem?_eq_some_iff.mp hv).1 (List.getElem?_eq_some_iff.mp hb).1 v.measurement) slots
    hl hs'

theorem Isolated.add4kPagesBuilder (hs : (System.mk m ps L).Isolated)
    {toAddr : PageAddr PageSize4k} {measurePreserve : Bool}
    (h : (System.mk m ps L).step (.add4kPagesBuilder i fromAddr count j toAddr measurePreserve) =
      some (s', r)) :
    s'.Isolated := by
  obtain ⟨v, b, _, ⟨root', meas'⟩, b', m', hv, hb, hc, rfl⟩ := step_add4kPagesBuilder h
  obtain ⟨slots, _, hl, rfl⟩ := VmPages.add4kPagesBuilder_eq_loop hc
  have hs' : (System.mk m (withPair ps i j (.vm v) (.guestBuilder b)) L).Isolated := by
    rwa [withPair_self hv hb]
  exact add4kPagesBuilderLoop_induct (isolated_keptByHandOver (ne_of_vm_guestBuilder hv hb)
    (List.getElem?_eq_some_iff.mp hv).1 (List.getElem?_eq_some_iff.mp hb).1 v.measurement)
    measurePreserve slots hl hs'

/-- `remove_4k_pages` keeps the system isolated unless it fails with `UnownedPage`. -/
theorem Isolated.remove4kPages (hs : (System.mk m ps L).Isolated)
    (h : (System.mk m ps L).step (.remove4kPages i fromAddr count) = some (s', r))
    (ha : Admitted (System.mk m ps L) (.remove4kPages i fromAddr count)) : s'.Isolated := by
  obtain ⟨v, r', ⟨root', meas'⟩, m', hv, hc, rfl⟩ := step_remove4kPages h
  obtain ⟨slots, _, hl, rfl, herr⟩ := VmPages.remove4kPages_eq_loop hc
  have hr := ha v hv
  rw [hc] at hr
  exact (remove4kPagesLoop_induct (isolated_keptByUnmap (L := L)
    (List.getElem?_eq_some_iff.mp hv).1 v.measurement _) slots hl
    ⟨rfl, fun _ => by rwa [set_of_getElem?_eq hv]⟩).2 fun a he => hr a (herr _ he)

omit [Inhabited D] [DataMeasure D] in
/-- A direct call on a guest builder takes the page out of the caller's hands. -/
theorem Isolated.builderCall (hs : (System.mk m ps L).Isolated) {page : Page4k}
    {f : GuestRootBuilder D → Except Error Unit × GuestRootBuilder D}
    (hf : ∀ b, System.Places page b (f b).2)
    (htop : ∀ b, ps[j]? = some (.guestBuilder b) → m.phys.owner page.bits = some b.root.owner)
    (h : (System.mk m ps L).builderCall j page f = some (s', r)) : s'.Isolated := by
  obtain ⟨b, hb, hp, rfl⟩ := builderCall_eq_some h
  obtain ⟨hs₁, hp₁⟩ := hs.erase_loose hp
  exact hs₁.placeBuilder hb hp₁ (htop b hb) (hf b)

end Calls

/-- Every admitted call keeps the system isolated. -/
theorem Isolated.step {s s' : System D} {c : Call} {r : Except Error Unit} (hs : s.Isolated)
    (ha : Admitted s c) (h : s.step c = some (s', r)) : s'.Isolated := by
  obtain ⟨m, ps, L⟩ := s
  cases c with
  | add4kDataPages i toAddr pages =>
    exact hs.hostCall (fun _ _ _ _ hf => ⟨_, _, add4kDataPages_loop hf⟩) h
  | add4kPages i toAddr pages =>
    exact hs.hostCall (fun _ _ _ _ hf => ⟨default, add4kPages_loop default hf⟩) h
  | createHost i => exact hs.createHost h
  | createGuestRootBuilder i fromAddr => exact hs.createGuestRootBuilder h
  | addPtePagesBuilder i fromAddr count j => exact hs.addPtePagesBuilder h
  | add4kPagesBuilder i fromAddr count j toAddr measurePreserve => exact hs.add4kPagesBuilder h
  | remove4kPages i fromAddr count => exact hs.remove4kPages h ha
  | addPtePage j page => exact hs.builderCall (fun b => places_addPtePage b page) ha h
  | addDataPage j gpa page => exact hs.builderCall (fun b => places_addDataPage b gpa page) ha h
  | addZeroPage j gpa page => exact hs.builderCall (fun b => places_addZeroPage b gpa page) ha h
  | createPages j => exact hs.createPages h

end System

/-- Every state reached by admitted calls is isolated. -/
theorem Reachable.isolated {boot : HypMem} {s : System D} (h : Reachable boot Admitted s) :
    s.Isolated := by
  induction h with
  | init hb => exact System.boot_isolated hb
  | step _ ha hs ih => exact ih.step ha hs

/-- The calls of the small machine's run make no demand on their caller. -/
theorem smallCalls_admitted (s : System PageLog) : ∀ c ∈ smallCalls, Admitted s c := by
  intro c hc
  simp only [smallCalls, List.mem_cons, List.mem_singleton, List.not_mem_nil, or_false] at hc
  rcases hc with rfl | rfl | rfl | rfl | rfl | rfl <;> trivial

end Salus
