import Salus.Isolation.Ids

/-!
# The host's mappings keep their offset within `TOP_LEVEL_ALIGN`

`HostRootBuilder` maps each host page at a GPA with the same offset within a `TOP_LEVEL_ALIGN`
chunk: `add_4k_data_pages` and `add_4k_pages` assert it before they map (`vm_pages.rs:195-196`,
`vm_pages.rs:239-242`, `vm_pages.rs:266-269`). No other call adds a leaf to a table of the
host's: the host's table only loses leaves, invalidated when it hands a page on and removed by
`remove_4k_pages`, and the leaves guests' builders get are in tables of their own ids, which are
never the host's. So over every run every leaf of a table with the host's id, valid or
invalidated, keeps its GPA and its page at the same offset.
-/

namespace Salus

variable {D : Type} [Inhabited D] [DataMeasure D]

namespace PageTable

/-- Every leaf of the table maps its GPA to a page at the same offset within a `TOP_LEVEL_ALIGN`
chunk. -/
def Aligned (t : PageTable) : Prop :=
  ∀ q ∈ t.entries, q.1 % topLevelAlign = q.2.page.bits % topLevelAlign

theorem Aligned.invalidate {t : PageTable} (h : t.Aligned) (g : Nat) : (t.invalidate g).Aligned := by
  intro q hq
  obtain ⟨q', hq', rfl⟩ := List.mem_map.mp hq
  split
  · exact h q' hq'
  · exact h q' hq'

theorem Aligned.unmap {t : PageTable} (h : t.Aligned) (g : Nat) : (t.unmap g).Aligned :=
  fun q hq => h q (List.mem_of_mem_filter hq)

/-- `map_page_4k` at a GPA with the page's offset keeps the table aligned. -/
theorem Aligned.mapPage4k {t : PageTable} (h : t.Aligned) {a : Nat} {page : Page4k}
    (supply : List Page4k) (ha : a % topLevelAlign = page.bits % topLevelAlign) :
    (t.mapPage4k a page supply).2.1.Aligned := by
  rcases (t.mapPage4k_spec a page supply).2.2.2 with he | he <;> rw [Aligned, he]
  · exact h
  · intro q hq
    rcases List.mem_cons.mp hq with rfl | hq
    exacts [ha, h q hq]

end PageTable

namespace HostRootBuilder

/-- The `assert_eq!` of the host's loops, on the bits below `TOP_LEVEL_ALIGN`, is the offset
within a chunk: a page the host maps keeps the table aligned. -/
theorem mapHostPage_aligned {vmAddr : Nat} {page : Page4k} {root root' : PageTable}
    {pte pte' : List Page4k} {phys phys' : PhysPages}
    (h : mapHostPage vmAddr page root pte phys = some (root', pte', phys')) (hr : root.Aligned) :
    root'.Aligned := by
  have ha : vmAddr % topLevelAlign = page.bits % topLevelAlign := by
    unfold mapHostPage at h
    split at h
    · cases h
    · rename_i heq
      simpa only [ne_eq, not_not, show topLevelAlign = 2 ^ 14 from rfl,
        Nat.and_pow_two_sub_one_eq_mod] using heq
  have hm := hr.mapPage4k pte ha
  rwa [congrArg Prod.fst (mapHostPage_eq_some h).2] at hm

omit [Inhabited D] in
/-- The loop of `add_4k_data_pages` keeps the host's table aligned. -/
theorem add4kDataPagesLoop_aligned : ∀ (pages : List Page4k) {vmAddr : Option Nat} {d d' : D}
    {root root' : PageTable} {pte pte' : List Page4k} {phys phys' : PhysPages},
    add4kDataPagesLoop pages vmAddr d root pte phys = some (d', root', pte', phys') →
    root.Aligned → root'.Aligned
  | [], _, _, _, _, _, _, _, _, _, h, hr => by cases h; exact hr
  | page :: pages, vmAddr, d, d', root, root', pte, pte', phys, phys', h, hr => by
    simp only [add4kDataPagesLoop] at h
    split at h
    · cases h
      exact hr
    · simp only [Option.bind_eq_bind, Option.bind_eq_some] at h
      obtain ⟨⟨root₁, pte₁, phys₁⟩, hmap, h⟩ := h
      exact add4kDataPagesLoop_aligned pages h (mapHostPage_aligned hmap hr)

end HostRootBuilder

/-! ## The loops that take leaves away -/

namespace System

omit [Inhabited D] [DataMeasure D] in
/-- Hand-overs invalidate leaves of the parent's table. -/
theorem aligned_keptByHandOver :
    KeptByHandOver (D := D) fun t _ _ => t.owner = .host → t.Aligned where
  drop _ hq _ _ := fun ho => (hq ho).invalidate _
  put _ hq _ _ _ _ := fun ho => (hq ho).invalidate _

theorem aligned_keptByUnmap (ownerId : PageOwnerId) :
    KeptByUnmap ownerId fun _ t _ => t.owner = .host → t.Aligned where
  pop _ hq _ := fun ho => (hq ho).unmap _
  stop _ hq _ := fun ho => (hq ho).unmap _

theorem aligned_keptByPull (id : PageOwnerId) :
    KeptByPull id fun (_ : List Page4k) t _ => t.owner = .host → t.Aligned where
  pull _ hq _ := fun ho => (hq ho).invalidate _

/-- The host's tables are aligned, no guest builder has the host's id, and the next id
`add_active_guest` hands out is a guest's. -/
structure HostAligned (s : System D) : Prop where
  nextId : 2 ≤ s.machine.phys.nextId
  guests : ∀ b, Principal.guestBuilder b ∈ s.principals → b.root.owner ≠ .host
  aligned : ∀ w ∈ s.principals, w.root.owner = .host → w.root.Aligned

section Calls

variable {m m' : Machine} {ps : List (Principal D)} {L L' : List Page4k} {s' : System D}
  {r : Except Error Unit} {i j : Nat} {fromAddr : PageAddr PageSize4k} {count : Nat}

omit [Inhabited D] [DataMeasure D] in
/-- Replacing a principal keeps the invariant when the new one is not a guest builder with the
host's id, and is aligned if it has the host's id. -/
theorem HostAligned.set (hs : (System.mk m ps L).HostAligned) (hn : 2 ≤ m'.phys.nextId)
    {w' : Principal D} (hg : ∀ b, w' = .guestBuilder b → b.root.owner ≠ .host)
    (ha : w'.root.owner = .host → w'.root.Aligned) :
    (System.mk m' (ps.set i w') L').HostAligned where
  nextId := hn
  guests b hb := by
    rcases List.mem_or_eq_of_mem_set hb with hb | hb
    exacts [hs.guests b hb, hg b hb.symm]
  aligned w hw := by
    rcases List.mem_or_eq_of_mem_set hw with hw | rfl
    exacts [hs.aligned w hw, ha]

omit [Inhabited D] in
theorem HostAligned.hostCall (hs : (System.mk m ps L).HostAligned) {pages : List Page4k}
    {toAddr : PageAddr PageSize4k}
    {f : HostRootBuilder D → PhysPages → Option (HostRootBuilder D × PhysPages)}
    (hf : ∀ b phys b' phys', f b phys = some (b', phys') → ∃ d d' : D,
      HostRootBuilder.add4kDataPagesLoop pages (some toAddr.bits) d b.root b.ptePages phys =
        some (d', b'.root, b'.ptePages, phys'))
    (h : (System.mk m ps L).hostCall i pages f = some (s', r)) : s'.HostAligned := by
  obtain ⟨b, b', phys', hb, -, hfb, rfl⟩ := hostCall_eq_some h
  obtain ⟨_, _, hloop⟩ := hf _ _ _ _ hfb
  obtain ⟨ho, hn⟩ := add4kDataPagesLoop_induct (owner_keptByMap b.root.owner m.phys.nextId) pages
    hloop ⟨rfl, rfl⟩
  refine hs.set (hn ▸ hs.nextId) nofun fun hh => ?_
  exact HostRootBuilder.add4kDataPagesLoop_aligned pages hloop
    (hs.aligned _ (List.getElem?_mem hb) (ho.symm.trans hh))

theorem HostAligned.createGuestRootBuilder (hs : (System.mk m ps L).HostAligned)
    (h : (System.mk m ps L).step (.createGuestRootBuilder i fromAddr) = some (s', r)) :
    s'.HostAligned := by
  obtain ⟨v, r', v', m', hv, hc, h⟩ := step_createGuestRootBuilder h
  obtain ⟨ho, hn, hb⟩ := createGuestRootBuilder_owner hc
  have hq : v.root.owner = .host → v.root.Aligned := hs.aligned _ (List.getElem?_mem hv)
  have hv' : (System.mk m' (ps.set i (.vm v')) L).HostAligned := by
    refine hs.set (Nat.le_trans hs.nextId hn) nofun ?_
    rcases createGuestRootBuilder_eq_some hc with ⟨rfl, -⟩ |
      ⟨_, _, _, _, _, _, _, _, _, _, _, _, _, -, htake, hnext₁, hnext₂, -⟩
    exacts [hq, cleanPages_induct (aligned_keptByPull _) htake hnext₁ hnext₂ hq]
  rcases r' with _ | ⟨b, sp⟩ <;> dsimp only at h <;> subst h
  · exact hv'
  obtain ⟨hbid, -⟩ := hb b sp rfl
  have hne : b.root.owner ≠ .host := by
    rw [hbid, PageOwnerId.host, ne_eq, PageOwnerId.mk.injEq]
    exact Nat.ne_of_gt hs.nextId
  refine ⟨hv'.nextId, fun b₁ hb₁ => ?_, fun w hw => ?_⟩
  · rcases List.mem_append.mp hb₁ with hb₁ | hb₁
    · exact hv'.guests b₁ hb₁
    · cases List.mem_singleton.mp hb₁
      exact hne
  · rcases List.mem_append.mp hw with hw | hw
    · exact hv'.aligned w hw
    · cases List.mem_singleton.mp hw
      exact fun he => absurd he hne

theorem HostAligned.addPtePagesBuilder (hs : (System.mk m ps L).HostAligned)
    (h : (System.mk m ps L).step (.addPtePagesBuilder i fromAddr count j) = some (s', r)) :
    s'.HostAligned := by
  obtain ⟨v, b, ⟨root', meas'⟩, b', m', hv, hb, hc, rfl⟩ := step_addPtePagesBuilder h
  obtain ⟨slots, _, hl, rfl⟩ := VmPages.addPtePagesBuilder_eq_loop hc
  obtain ⟨-, ho', hn⟩ := addPtePagesLoop_induct (owner_keptByHandOver _ _ _) slots hl
    ⟨rfl, rfl, rfl⟩
  have hg := hs.guests b (List.getElem?_mem hb)
  have hv' : (System.mk m' (ps.set i (.vm ⟨root', v.measurement⟩)) L).HostAligned :=
    hs.set (hn ▸ hs.nextId) nofun (addPtePagesLoop_induct aligned_keptByHandOver slots hl
      (hs.aligned _ (List.getElem?_mem hv)))
  refine hv'.set (hn ▸ hs.nextId) (fun _ he => ?_) fun he => absurd (ho'.symm.trans he) hg
  cases he
  rwa [ho']

theorem HostAligned.add4kPagesBuilder (hs : (System.mk m ps L).HostAligned)
    {toAddr : PageAddr PageSize4k} {measurePreserve : Bool}
    (h : (System.mk m ps L).step (.add4kPagesBuilder i fromAddr count j toAddr measurePreserve) =
      some (s', r)) :
    s'.HostAligned := by
  obtain ⟨v, b, _, ⟨root', meas'⟩, b', m', hv, hb, hc, rfl⟩ := step_add4kPagesBuilder h
  obtain ⟨slots, _, hl, rfl⟩ := VmPages.add4kPagesBuilder_eq_loop hc
  obtain ⟨-, ho', hn⟩ := add4kPagesBuilderLoop_induct (owner_keptByHandOver _ _ _)
    measurePreserve slots hl ⟨rfl, rfl, rfl⟩
  have hg := hs.guests b (List.getElem?_mem hb)
  have hv' : (System.mk m' (ps.set i (.vm ⟨root', v.measurement⟩)) L).HostAligned :=
    hs.set (hn ▸ hs.nextId) nofun (add4kPagesBuilderLoop_induct aligned_keptByHandOver measurePreserve slots hl
      (hs.aligned _ (List.getElem?_mem hv)))
  refine hv'.set (hn ▸ hs.nextId) (fun _ he => ?_) fun he => absurd (ho'.symm.trans he) hg
  cases he
  rwa [ho']

theorem HostAligned.remove4kPages (hs : (System.mk m ps L).HostAligned)
    (h : (System.mk m ps L).step (.remove4kPages i fromAddr count) = some (s', r)) :
    s'.HostAligned := by
  obtain ⟨v, r', ⟨root', meas'⟩, m', hv, hc, rfl⟩ := step_remove4kPages h
  obtain ⟨slots, _, hl, rfl, -⟩ := VmPages.remove4kPages_eq_loop hc
  obtain ⟨-, hn⟩ := remove4kPagesLoop_induct (owner_keptByUnmap _ v.root.owner m.phys.nextId)
    slots hl ⟨rfl, rfl⟩
  exact hs.set (hn ▸ hs.nextId) nofun (remove4kPagesLoop_induct (aligned_keptByUnmap _) slots hl
    (hs.aligned _ (List.getElem?_mem hv)))

omit [Inhabited D] [DataMeasure D] in
theorem HostAligned.builderCall (hs : (System.mk m ps L).HostAligned) {page : Page4k}
    {f : GuestRootBuilder D → Except Error Unit × GuestRootBuilder D}
    (hf : ∀ b, (f b).2.root.owner = b.root.owner)
    (h : (System.mk m ps L).builderCall j page f = some (s', r)) : s'.HostAligned := by
  obtain ⟨b, hb, -, rfl⟩ := builderCall_eq_some h
  have hg := hs.guests b (List.getElem?_mem hb)
  exact hs.set hs.nextId (fun _ he => by cases he; rwa [hf])
    fun he => absurd ((hf b).symm.trans he) hg

end Calls

/-- Every call keeps the host's tables aligned. -/
theorem HostAligned.step {s s' : System D} {c : Call} {r : Except Error Unit} (hs : s.HostAligned)
    (h : s.step c = some (s', r)) : s'.HostAligned := by
  obtain ⟨m, ps, L⟩ := s
  cases c with
  | add4kDataPages i toAddr pages =>
    exact hs.hostCall (fun _ _ _ _ hf => ⟨_, _, add4kDataPages_loop hf⟩) h
  | add4kPages i toAddr pages =>
    exact hs.hostCall (fun _ _ _ _ hf => ⟨default, add4kPages_loop default hf⟩) h
  | createHost i =>
    obtain ⟨b, hb, rfl⟩ := step_createHost h
    exact hs.set hs.nextId nofun (hs.aligned (.hostBuilder b) (List.getElem?_mem hb))
  | createGuestRootBuilder i fromAddr => exact hs.createGuestRootBuilder h
  | addPtePagesBuilder i fromAddr count j => exact hs.addPtePagesBuilder h
  | add4kPagesBuilder i fromAddr count j toAddr measurePreserve =>
    exact hs.add4kPagesBuilder h
  | remove4kPages i fromAddr count => exact hs.remove4kPages h
  | addPtePage j page => exact hs.builderCall (fun b => (places_addPtePage b page).owner) h
  | addDataPage j gpa page =>
    exact hs.builderCall (fun b => (places_addDataPage b gpa page).owner) h
  | addZeroPage j gpa page =>
    exact hs.builderCall (fun b => (places_addZeroPage b gpa page).owner) h
  | createPages j =>
    obtain ⟨b, hb, rfl⟩ := step_createPages h
    have hg := hs.guests b (List.getElem?_mem hb)
    exact hs.set hs.nextId nofun fun he => absurd he hg

end System

end Salus
