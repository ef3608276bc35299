import Salus.Isolation.Calls

/-!
# No page is ever held twice

Every call moves pages between the places of `Holdings`, or drops them, and never makes one up:
the exclusive pages after a call are a sub-multiset of those before, whatever the call returns
and whatever its caller passes. A page reaches a principal only from a valid leaf of its
parent, which the parent invalidates first, or from the handles the caller holds, which the call
consumes. This needs nothing of the owner stacks, so it holds over every run, also where the
isolation invariant does not. From boot on, the exclusive pages are among the pages
`HypPageAlloc` handed out, each at most once.
-/

namespace Salus

variable {D : Type} [Inhabited D] [DataMeasure D]

namespace System

section Moves

omit [Inhabited D] [DataMeasure D]

variable {ps qs : List (Principal D)} {i j : Nat} {meas : D} {t : PageTable} {g : Nat}
  {p : Page4k}

/-- Invalidating the valid leaf at `g` of the VM at `i` takes its page out of what is held. -/
theorem held_invalidate (hw : qs[i]? = some (.vm ⟨t, meas⟩)) (he : t.entry g = some ⟨p, true⟩) :
    ((qs.set i (.vm ⟨t.invalidate g, meas⟩)).flatMap Principal.heldPages ++ [p]).Subperm
      (qs.flatMap Principal.heldPages) := by
  have h := flatMap_heldPages_set hw
    (by simpa using (Principal.heldPages_invalidate ⟨t, meas⟩ g).subperm :
      ((Principal.vm ⟨t.invalidate g, meas⟩).heldPages ++ t.validAt g).Subperm
        ((Principal.vm ⟨t, meas⟩).heldPages ++ []))
  rw [List.append_nil] at h
  exact ((List.subperm_append_left _).mpr
    (List.singleton_subperm_iff.mpr (PageTable.mem_validAt he))).trans h

/-- Unmapping the leaves at `g` of the VM at `i` holds no new page. -/
theorem held_unmap (hi : i < qs.length) :
    ((qs.set i (.vm ⟨t.unmap g, meas⟩)).flatMap Principal.heldPages).Subperm
      ((qs.set i (.vm ⟨t, meas⟩)).flatMap Principal.heldPages) := by
  have h := flatMap_heldPages_set (List.getElem?_set_self hi)
    (by simpa using (Principal.heldPages_unmap ⟨t, meas⟩ g).subperm :
      ((Principal.vm ⟨t.unmap g, meas⟩).heldPages ++ t.validAt g).Subperm
        ((Principal.vm ⟨t, meas⟩).heldPages ++ []))
  rw [List.append_nil, List.set_set] at h
  exact (List.sublist_append_left _ _).subperm.trans h

/-- The parent at `i` invalidates its valid leaf at `g` and the child's builder at `j` takes at
most its page. -/
theorem held_handOver (hij : i ≠ j) (hi : i < ps.length) (hj : j < ps.length)
    {dest dest' : GuestRootBuilder D} (he : t.entry g = some ⟨p, true⟩)
    (hp : (Principal.guestBuilder dest').heldPages.Subperm
      ((Principal.guestBuilder dest).heldPages ++ [p])) :
    ((withPair ps i j (.vm ⟨t.invalidate g, meas⟩) (.guestBuilder dest')).flatMap
      Principal.heldPages).Subperm
      ((withPair ps i j (.vm ⟨t, meas⟩) (.guestBuilder dest)).flatMap Principal.heldPages) := by
  have h₁ := held_invalidate
    (withPair_getElem?_left hij hi :
      (withPair ps i j (.vm ⟨t, meas⟩) (.guestBuilder dest))[i]? = _) he
  rw [withPair_set_left hij] at h₁
  have h₂ := flatMap_heldPages_set (withPair_getElem?_right hj :
    (withPair ps i j (.vm ⟨t.invalidate g, meas⟩) (.guestBuilder dest))[j]? = _)
    (by simpa using hp : ((Principal.guestBuilder dest').heldPages ++ []).Subperm
      ((Principal.guestBuilder dest).heldPages ++ [p]))
  rw [withPair_set_right, List.append_nil] at h₂
  exact h₂.trans h₁

end Moves

omit [DataMeasure D] in
/-- `from_hyp_mem` holds every page `HypPageAlloc` hands out: the host's root and PTE reservoir
in its builder, the host's pages in the caller's hands. -/
theorem boot_exclusivePages {m : HypMem} {s : System D} (h : boot m = some s) :
    s.exclusivePages = m.pages := by
  obtain ⟨rootSeq, hseq, rfl⟩ := boot_eq_some h
  simp [exclusivePages, Principal.heldPages, PageTable.validPages, PageTable.nodePages,
    PageTable.rootPages, hseq, HypMem.pages]

/-! ## The loops -/

omit [Inhabited D] [DataMeasure D] in
/-- Hand-overs between a VM and a guest builder hold no new page. -/
theorem held_keptByHandOver {ps : List (Principal D)} {i j : Nat} (hij : i ≠ j)
    (hi : i < ps.length) (hj : j < ps.length) (meas : D) (X : List Page4k) :
    KeptByHandOver fun t dest (_ : Machine) =>
      ((withPair ps i j (.vm ⟨t, meas⟩) (.guestBuilder dest)).flatMap Principal.heldPages).Subperm
        X where
  drop he hq _ _ := (held_handOver hij hi hj he (List.sublist_append_left _ _).subperm).trans hq
  put he hq _ hpl _ _ := (held_handOver hij hi hj he hpl.held).trans hq

omit [Inhabited D] [DataMeasure D] in
/-- The slots of `remove_4k_pages` hold no new page. -/
theorem held_keptByUnmap {ps : List (Principal D)} {i : Nat} (hi : i < ps.length) (meas : D)
    (ownerId : PageOwnerId) (X : List Page4k) :
    KeptByUnmap ownerId fun _ t (_ : Machine) =>
      ((ps.set i (.vm ⟨t, meas⟩)).flatMap Principal.heldPages).Subperm X where
  pop _ hq _ := (held_unmap hi).trans hq
  stop _ hq _ := (held_unmap hi).trans hq

omit [Inhabited D] [DataMeasure D] in
/-- The host's loop moves the pages it reaches from the caller's hands into its table. -/
theorem held_keptByMap {ps : List (Principal D)} {i : Nat} (hi : i < ps.length) (d₀ : D)
    (X : List Page4k) :
    KeptByMap fun pages root pte (_ : PhysPages) =>
      ((ps.set i (.hostBuilder ⟨root, pte, d₀⟩)).flatMap Principal.heldPages ++ pages).Subperm X
    where
  map := by
    intro page pages root pte _ _ a hq _
    have hput := flatMap_heldPages_set (List.getElem?_set_self hi)
      (by simpa using Principal.heldPages_mapPage4k root pte d₀ d₀ a page :
        ((Principal.hostBuilder ⟨(root.mapPage4k a page pte).2.1,
          (root.mapPage4k a page pte).2.2, d₀⟩ : Principal D).heldPages ++ []).Subperm
          ((Principal.hostBuilder ⟨root, pte, d₀⟩).heldPages ++ [page]))
    rw [List.set_set, List.append_nil] at hput
    have h := (List.subperm_append_right pages).mpr hput
    rw [List.append_assoc, List.singleton_append] at h
    exact h.trans hq
  drop hq := by
    rw [List.append_nil]
    exact (List.sublist_append_left _ _).subperm.trans hq

omit [Inhabited D] [DataMeasure D] in
/-- A pull moves a page from the parent's valid leaves to the pulled pages. -/
theorem held_keptByPull {ps : List (Principal D)} {i : Nat} (hi : i < ps.length) (meas : D)
    (id : PageOwnerId) (X : List Page4k) :
    KeptByPull id fun hand t (_ : PhysPages) =>
      ((ps.set i (.vm ⟨t, meas⟩)).flatMap Principal.heldPages ++ hand).Subperm X where
  pull := by
    intro hand t phys phys' g p he hq _
    have h := held_invalidate (List.getElem?_set_self hi (a := .vm ⟨t, meas⟩)) he
    rw [List.set_set] at h
    refine (List.subperm_ext_iff.mpr fun a _ => ?_).trans hq
    have := h.count_le a
    simp only [List.count_append] at this ⊢
    omega

omit [DataMeasure D] in
/-- `create_guest_root_builder` hands the new builder and the caller only pages it pulled from
the parent's valid leaves. -/
theorem createGuestRootBuilder_held {ps : List (Principal D)} {i : Nat} {v v' : VmPages D}
    {fromAddr : PageAddr PageSize4k} {m m' : Machine}
    {r : Except Error (GuestRootBuilder D × Page4k)} (hw : ps[i]? = some (.vm v))
    (h : v.createGuestRootBuilder fromAddr m = some (r, v', m')) :
    match r with
    | .ok (b, sp) => ((ps.set i (.vm v')).flatMap Principal.heldPages ++
        ((Principal.guestBuilder b).heldPages ++ [sp])).Subperm (ps.flatMap Principal.heldPages)
    | .error _ => ((ps.set i (.vm v')).flatMap Principal.heldPages).Subperm
        (ps.flatMap Principal.heldPages) := by
  have hi : i < ps.length := (List.getElem?_eq_some_iff.mp hw).1
  have hself : ps.set i (.vm v) = ps := set_of_getElem?_eq hw
  rcases createGuestRootBuilder_eq_some h with ⟨rfl, -, -, -, e, rfl⟩ |
    ⟨phys₁, slots, rootPages, rest₁, t₁, phys₂, ptePage, rest₂, t₂, phys₃, sp, rest₃, b, -, htake,
      hnext₁, hnext₂, hmeas, -, rfl, hheld, -⟩
  · rw [hself]
  obtain ⟨root', meas'⟩ := v'
  dsimp only at hmeas hnext₂
  subst hmeas
  have hQ := held_keptByPull hi v.measurement ⟨m.phys.nextId⟩ (ps.flatMap Principal.heldPages)
  have h₀ : ((ps.set i (.vm ⟨v.root, v.measurement⟩)).flatMap Principal.heldPages ++ []).Subperm
      (ps.flatMap Principal.heldPages) := by
    rw [List.append_nil, show ps.set i (.vm ⟨v.root, v.measurement⟩) = ps from hself]
  have h₅ := cleanPages_induct hQ htake hnext₁ hnext₂ h₀
  dsimp only
  rw [hheld]
  simpa using h₅

/-! ## Every call -/

section Calls

variable {m : Machine} {ps : List (Principal D)} {L : List Page4k} {s' : System D}
  {r : Except Error Unit} {i j : Nat} {fromAddr : PageAddr PageSize4k} {count : Nat}

omit [Inhabited D] in
/-- The host builder's calls move the pages they reach from the caller's hands into the host's
table and drop the rest. -/
theorem hostCall_held {pages : List Page4k} {toAddr : PageAddr PageSize4k}
    {f : HostRootBuilder D → PhysPages → Option (HostRootBuilder D × PhysPages)}
    (hf : ∀ b phys b' phys', f b phys = some (b', phys') → ∃ d d' : D,
      HostRootBuilder.add4kDataPagesLoop pages (some toAddr.bits) d b.root b.ptePages phys =
        some (d', b'.root, b'.ptePages, phys'))
    (h : (System.mk m ps L).hostCall i pages f = some (s', r)) :
    s'.exclusivePages.Subperm (System.mk m ps L).exclusivePages := by
  obtain ⟨b, b', phys', hb, hsub, hfb, rfl⟩ := hostCall_eq_some h
  obtain ⟨_, _, hloop⟩ := hf _ _ _ _ hfb
  have hi : i < ps.length := (List.getElem?_eq_some_iff.mp hb).1
  have hl := add4kDataPagesLoop_induct (held_keptByMap hi b.measurement
    (ps.flatMap Principal.heldPages ++ pages)) pages hloop (by rw [set_of_getElem?_eq hb])
  rw [List.append_nil] at hl
  have hset := flatMap_heldPages_set (List.getElem?_set_self hi)
    (List.Subperm.refl _ : ((Principal.hostBuilder b').heldPages ++ []).Subperm
      ((Principal.hostBuilder ⟨b'.root, b'.ptePages, b.measurement⟩).heldPages ++ []))
  rw [List.set_set, List.append_nil, List.append_nil] at hset
  have hperm : (pages ++ L.diff pages).Perm L :=
    List.subperm_append_diff_self_of_count_le fun x _ => hsub.count_le x
  simp only [exclusivePages]
  refine ((List.subperm_append_right _).mpr (hset.trans hl)).trans ?_
  rw [List.append_assoc]
  exact (List.subperm_append_left _).mpr hperm.subperm

omit [Inhabited D] [DataMeasure D] in
/-- A direct call on a guest builder moves the page from the caller's hands to the builder. -/
theorem builderCall_held {page : Page4k}
    {f : GuestRootBuilder D → Except Error Unit × GuestRootBuilder D}
    (hf : ∀ b, (Principal.guestBuilder (f b).2).heldPages.Subperm
      ((Principal.guestBuilder b).heldPages ++ [page]))
    (h : (System.mk m ps L).builderCall j page f = some (s', r)) :
    s'.exclusivePages.Subperm (System.mk m ps L).exclusivePages := by
  obtain ⟨b, hb, hp, rfl⟩ := builderCall_eq_some h
  have hset := flatMap_heldPages_set hb (by simpa using hf b :
    ((Principal.guestBuilder (f b).2).heldPages ++ []).Subperm
      ((Principal.guestBuilder b).heldPages ++ [page]))
  rw [List.append_nil] at hset
  simp only [exclusivePages]
  refine ((List.subperm_append_right _).mpr hset).trans ?_
  rw [List.append_assoc]
  exact (List.subperm_append_left _).mpr (List.perm_cons_erase hp).symm.subperm

omit [Inhabited D] [DataMeasure D] in
/-- A principal replaced by one that holds some of its pages. -/
theorem held_shrink {w w' : Principal D} (hw : ps[i]? = some w)
    (hh : w'.heldPages.Subperm w.heldPages) :
    ((ps.set i w').flatMap Principal.heldPages).Subperm (ps.flatMap Principal.heldPages) := by
  have h := flatMap_heldPages_set hw (by simpa using hh :
    (w'.heldPages ++ []).Subperm (w.heldPages ++ []))
  rwa [List.append_nil, List.append_nil] at h

theorem createHost_held (h : (System.mk m ps L).step (.createHost i) = some (s', r)) :
    s'.exclusivePages.Subperm (System.mk m ps L).exclusivePages := by
  obtain ⟨b, hb, rfl⟩ := step_createHost h
  exact (List.subperm_append_right _).mpr (held_shrink hb (List.sublist_append_left _ _).subperm)

theorem createPages_held (h : (System.mk m ps L).step (.createPages j) = some (s', r)) :
    s'.exclusivePages.Subperm (System.mk m ps L).exclusivePages := by
  obtain ⟨b, hb, rfl⟩ := step_createPages h
  exact (List.subperm_append_right _).mpr (held_shrink hb (List.sublist_append_left _ _).subperm)

theorem createGuestRootBuilder_step_held
    (h : (System.mk m ps L).step (.createGuestRootBuilder i fromAddr) = some (s', r)) :
    s'.exclusivePages.Subperm (System.mk m ps L).exclusivePages := by
  obtain ⟨v, r', v', m', hv, hc, h⟩ := step_createGuestRootBuilder h
  have hheld := createGuestRootBuilder_held hv hc
  rcases r' with _ | ⟨b, sp⟩ <;> dsimp only at h <;> subst h
  · exact (List.subperm_append_right _).mpr hheld
  · refine List.subperm_ext_iff.mpr fun a _ => ?_
    have := hheld.count_le a
    simp only [exclusivePages, List.flatMap_append, List.flatMap_singleton, List.count_append,
      List.count_cons, List.count_singleton'] at this ⊢
    omega

theorem addPtePagesBuilder_held
    (h : (System.mk m ps L).step (.addPtePagesBuilder i fromAddr count j) = some (s', r)) :
    s'.exclusivePages.Subperm (System.mk m ps L).exclusivePages := by
  obtain ⟨v, b, ⟨root', meas'⟩, b', m', hv, hb, hc, rfl⟩ := step_addPtePagesBuilder h
  obtain ⟨slots, _, hl, rfl⟩ := VmPages.addPtePagesBuilder_eq_loop hc
  refine (List.subperm_append_right _).mpr (addPtePagesLoop_induct
    (held_keptByHandOver (ne_of_vm_guestBuilder hv hb) (List.getElem?_eq_some_iff.mp hv).1
      (List.getElem?_eq_some_iff.mp hb).1 v.measurement _) slots hl ?_)
  rw [show withPair ps i j (.vm ⟨v.root, v.measurement⟩) (.guestBuilder b) = ps from
    withPair_self hv hb]

theorem add4kPagesBuilder_held {toAddr : PageAddr PageSize4k} {measurePreserve : Bool}
    (h : (System.mk m ps L).step (.add4kPagesBuilder i fromAddr count j toAddr measurePreserve) =
      some (s', r)) :
    s'.exclusivePages.Subperm (System.mk m ps L).exclusivePages := by
  obtain ⟨v, b, _, ⟨root', meas'⟩, b', m', hv, hb, hc, rfl⟩ := step_add4kPagesBuilder h
  obtain ⟨slots, _, hl, rfl⟩ := VmPages.add4kPagesBuilder_eq_loop hc
  refine (List.subperm_append_right _).mpr (add4kPagesBuilderLoop_induct
    (held_keptByHandOver (ne_of_vm_guestBuilder hv hb) (List.getElem?_eq_some_iff.mp hv).1
      (List.getElem?_eq_some_iff.mp hb).1 v.measurement _) measurePreserve slots hl ?_)
  rw [show withPair ps i j (.vm ⟨v.root, v.measurement⟩) (.guestBuilder b) = ps from
    withPair_self hv hb]

theorem remove4kPages_held
    (h : (System.mk m ps L).step (.remove4kPages i fromAddr count) = some (s', r)) :
    s'.exclusivePages.Subperm (System.mk m ps L).exclusivePages := by
  obtain ⟨v, r', ⟨root', meas'⟩, m', hv, hc, rfl⟩ := step_remove4kPages h
  obtain ⟨slots, _, hl, rfl, -⟩ := VmPages.remove4kPages_eq_loop hc
  refine (List.subperm_append_right _).mpr (remove4kPagesLoop_induct (held_keptByUnmap
    (List.getElem?_eq_some_iff.mp hv).1 v.measurement _ _) slots hl ?_)
  rw [show ps.set i (.vm ⟨v.root, v.measurement⟩) = ps from set_of_getElem?_eq hv]

end Calls

/-- No call holds a page it was not handed or did not take from a valid leaf. -/
theorem exclusivePages_step {s s' : System D} {c : Call} {r : Except Error Unit}
    (h : s.step c = some (s', r)) : s'.exclusivePages.Subperm s.exclusivePages := by
  obtain ⟨m, ps, L⟩ := s
  cases c with
  | add4kDataPages i toAddr pages =>
    exact hostCall_held (fun _ _ _ _ hf => ⟨_, _, add4kDataPages_loop hf⟩) h
  | add4kPages i toAddr pages =>
    exact hostCall_held (fun _ _ _ _ hf => ⟨default, add4kPages_loop default hf⟩) h
  | createHost i => exact createHost_held h
  | createGuestRootBuilder i fromAddr => exact createGuestRootBuilder_step_held h
  | addPtePagesBuilder i fromAddr count j => exact addPtePagesBuilder_held h
  | add4kPagesBuilder i fromAddr count j toAddr measurePreserve => exact add4kPagesBuilder_held h
  | remove4kPages i fromAddr count => exact remove4kPages_held h
  | addPtePage j page => exact builderCall_held (fun b => (places_addPtePage b page).held) h
  | addDataPage j gpa page =>
    exact builderCall_held (fun b => (places_addDataPage b gpa page).held) h
  | addZeroPage j gpa page =>
    exact builderCall_held (fun b => (places_addZeroPage b gpa page).held) h
  | createPages j => exact createPages_held h

end System

/-- Every state reached from boot, by any calls, holds only pages `HypPageAlloc` handed out,
each at most once. -/
theorem Reachable.exclusivePages_subperm {boot : HypMem} {allowed : System D → Call → Prop}
    {s : System D} (h : Reachable boot allowed s) : s.exclusivePages.Subperm boot.pages := by
  induction h with
  | init hb => exact (System.boot_exclusivePages hb).symm ▸ List.Subperm.refl _
  | step _ _ hs ih => exact (System.exclusivePages_step hs).trans ih

end Salus
