import Salus.Isolation.Ids

/-!
# The active-guest set

`create_guest_root_builder` enters the id it gives a new guest in the active-guest set, through
`add_active_guest`, before it builds anything (`vm_pages.rs:64`). No call of `vm_pages.rs` takes
an id out of the set: only `Drop for VmPages` does, with the VM's own id
(`vm_pages.rs:175-181`), and every other call touches owner stacks alone (`set_page_owner`,
`pop_owner`). So over every run the set holds each id at most once, and only ids already handed
to guests; every principal but the host has its id in it; and dropping any VM of the system
takes that VM's id out of the set.
-/

namespace Salus

variable {D : Type} [Inhabited D] [DataMeasure D]

namespace PhysPages

theorem setPageOwner_tracking {pp pp' : PhysPages} {addr : PageAddr PageSize4k} {id : PageOwnerId}
    (h : pp.setPageOwner addr id = .ok pp') :
    pp'.activeGuests = pp.activeGuests ∧ pp'.nextId = pp.nextId := by
  rw [(setPageOwner_eq_ok h).2]
  exact ⟨rfl, rfl⟩

theorem popOwner_tracking {pp pp' : PhysPages} {addr : PageAddr PageSize4k} {top : PageOwnerId}
    (h : pp.popOwner addr = .ok (top, pp')) :
    pp'.activeGuests = pp.activeGuests ∧ pp'.nextId = pp.nextId := by
  obtain ⟨_, -, -, rfl⟩ := popOwner_eq_ok h
  exact ⟨rfl, rfl⟩

end PhysPages

namespace System

/-! ## The loops leave the set alone -/

/-- The host's loop keeps the active set and the next id. -/
theorem active_keptByMap (pp : PhysPages) :
    KeptByMap fun _ _ _ phys => phys.activeGuests = pp.activeGuests ∧ phys.nextId = pp.nextId where
  map hq hset := by
    rw [← hq.1, ← hq.2]
    exact PhysPages.setPageOwner_tracking hset
  drop hq := hq

omit [Inhabited D] [DataMeasure D] in
theorem active_keptByHandOver (pp : PhysPages) :
    KeptByHandOver (D := D) fun _ _ m =>
      m.phys.activeGuests = pp.activeGuests ∧ m.phys.nextId = pp.nextId where
  drop _ hq _ hm := by rw [hm]; exact hq
  put _ hq hset _ _ hm := by
    rw [hm, ← hq.1, ← hq.2]
    exact PhysPages.setPageOwner_tracking hset

omit [Inhabited D] [DataMeasure D] in
theorem active_keptByUnmap (ownerId : PageOwnerId) (pp : PhysPages) :
    KeptByUnmap ownerId fun _ _ m =>
      m.phys.activeGuests = pp.activeGuests ∧ m.phys.nextId = pp.nextId where
  pop _ hq hpop := by
    rw [← hq.1, ← hq.2]
    exact PhysPages.popOwner_tracking hpop
  stop _ hq hphys := by
    rcases hphys with rfl | ⟨_, hpop⟩
    · exact hq
    · rw [← hq.1, ← hq.2]
      exact PhysPages.popOwner_tracking hpop

omit [Inhabited D] [DataMeasure D] in
theorem active_keptByPull (id : PageOwnerId) (pp : PhysPages) :
    KeptByPull id fun (_ : List Page4k) _ phys =>
      phys.activeGuests = pp.activeGuests ∧ phys.nextId = pp.nextId where
  pull _ hq hset := by
    rw [← hq.1, ← hq.2]
    exact PhysPages.setPageOwner_tracking hset

/-! ## Every call -/

/-- What a call may do to the active set and the next id: leave both, or enter the next id and
move the next id on. -/
def KeepsActive (pp pp' : PhysPages) : Prop :=
  pp'.activeGuests = pp.activeGuests ∧ pp'.nextId = pp.nextId ∨
    pp'.activeGuests = pp.activeGuests ++ [⟨pp.nextId⟩] ∧ pp.nextId < pp'.nextId

section Calls

variable {m : Machine} {ps : List (Principal D)} {L : List Page4k} {s' : System D}
  {r : Except Error Unit} {i j : Nat} {fromAddr : PageAddr PageSize4k} {count : Nat}

omit [Inhabited D] in
theorem hostCall_keepsActive {pages : List Page4k} {toAddr : PageAddr PageSize4k}
    {f : HostRootBuilder D → PhysPages → Option (HostRootBuilder D × PhysPages)}
    (hf : ∀ b phys b' phys', f b phys = some (b', phys') → ∃ d d' : D,
      HostRootBuilder.add4kDataPagesLoop pages (some toAddr.bits) d b.root b.ptePages phys =
        some (d', b'.root, b'.ptePages, phys'))
    (h : (System.mk m ps L).hostCall i pages f = some (s', r)) :
    KeepsActive m.phys s'.machine.phys := by
  obtain ⟨b, b', phys', -, -, hfb, rfl⟩ := hostCall_eq_some h
  obtain ⟨_, _, hloop⟩ := hf _ _ _ _ hfb
  exact .inl (add4kDataPagesLoop_induct (active_keptByMap m.phys) pages hloop ⟨rfl, rfl⟩)

omit [Inhabited D] [DataMeasure D] in
theorem builderCall_keepsActive {page : Page4k}
    {f : GuestRootBuilder D → Except Error Unit × GuestRootBuilder D}
    (h : (System.mk m ps L).builderCall j page f = some (s', r)) :
    KeepsActive m.phys s'.machine.phys := by
  obtain ⟨b, -, -, rfl⟩ := builderCall_eq_some h
  exact .inl ⟨rfl, rfl⟩

omit [DataMeasure D] in
/-- `create_guest_root_builder` enters the next id when `add_active_guest` succeeds: the id stays
whether the call goes on to succeed or fails with `InvalidRange`. -/
theorem createGuestRootBuilder_keepsActive {v v' : VmPages D} {m' : Machine}
    {r' : Except Error (GuestRootBuilder D × Page4k)}
    (hc : v.createGuestRootBuilder fromAddr m = some (r', v', m')) :
    KeepsActive m.phys m'.phys := by
  rcases r' with e | ⟨b, sp⟩
  · obtain ⟨-, rfl | ⟨-, -, hid⟩⟩ := createGuestRootBuilder_error hc
    · exact .inl ⟨rfl, rfl⟩
    · obtain ⟨-, -, hn⟩ := PhysPages.addActiveGuest_eq_ok hid
      exact .inr ⟨PhysPages.addActiveGuest_activeGuests hid, by omega⟩
  · rcases createGuestRootBuilder_eq_some hc with ⟨-, -, -, -, _, he⟩ |
      ⟨phys₁, _, _, _, _, _, _, _, _, _, _, _, _, hid, htake, hnext₁, hnext₂, -⟩
    · cases he
    obtain ⟨-, -, hn⟩ := PhysPages.addActiveGuest_eq_ok hid
    obtain ⟨ha, hn'⟩ := cleanPages_induct (active_keptByPull _ phys₁) htake hnext₁ hnext₂
      ⟨rfl, rfl⟩
    exact .inr ⟨ha.trans (PhysPages.addActiveGuest_activeGuests hid), by omega⟩

end Calls

/-- Every call leaves the active set alone, or enters the next id and moves the next id on. -/
theorem keepsActive_step {s s' : System D} {c : Call} {r : Except Error Unit}
    (h : s.step c = some (s', r)) : KeepsActive s.machine.phys s'.machine.phys := by
  obtain ⟨m, ps, L⟩ := s
  cases c with
  | add4kDataPages i toAddr pages =>
    exact hostCall_keepsActive (fun _ _ _ _ hf => ⟨_, _, add4kDataPages_loop hf⟩) h
  | add4kPages i toAddr pages =>
    exact hostCall_keepsActive (fun _ _ _ _ hf => ⟨default, add4kPages_loop default hf⟩) h
  | createHost i =>
    obtain ⟨b, -, rfl⟩ := step_createHost h
    exact .inl ⟨rfl, rfl⟩
  | createGuestRootBuilder i fromAddr =>
    obtain ⟨v, r', v', m', -, hc, h⟩ := step_createGuestRootBuilder h
    have hm : s'.machine = m' := by
      rcases r' with _ | ⟨b, sp⟩ <;> (dsimp only at h; rw [h])
    exact hm ▸ createGuestRootBuilder_keepsActive hc
  | addPtePagesBuilder i fromAddr count j =>
    obtain ⟨v, b, v', b', m', -, -, hc, rfl⟩ := step_addPtePagesBuilder h
    obtain ⟨slots, _, hl, -⟩ := VmPages.addPtePagesBuilder_eq_loop hc
    exact .inl (addPtePagesLoop_induct (active_keptByHandOver m.phys) slots hl ⟨rfl, rfl⟩)
  | add4kPagesBuilder i fromAddr count j toAddr measurePreserve =>
    obtain ⟨v, b, _, v', b', m', -, -, hc, rfl⟩ := step_add4kPagesBuilder h
    obtain ⟨slots, _, hl, -⟩ := VmPages.add4kPagesBuilder_eq_loop hc
    exact .inl (add4kPagesBuilderLoop_induct (active_keptByHandOver m.phys) measurePreserve slots
      hl ⟨rfl, rfl⟩)
  | remove4kPages i fromAddr count =>
    obtain ⟨v, r', v', m', -, hc, rfl⟩ := step_remove4kPages h
    obtain ⟨slots, _, hl, -, -⟩ := VmPages.remove4kPages_eq_loop hc
    exact .inl (remove4kPagesLoop_induct (active_keptByUnmap _ m.phys) slots hl ⟨rfl, rfl⟩)
  | addPtePage j page => exact builderCall_keepsActive h
  | addDataPage j gpa page =>
    exact builderCall_keepsActive (show (System.mk m ps L).builderCall j page
      (fun b => b.addDataPage gpa page) = _ from h)
  | addZeroPage j gpa page =>
    exact builderCall_keepsActive (show (System.mk m ps L).builderCall j page
      (fun b => b.addZeroPage gpa page) = _ from h)
  | createPages j =>
    obtain ⟨b, -, rfl⟩ := step_createPages h
    exact .inl ⟨rfl, rfl⟩

/-! ## Over every run -/

/-- The active set holds each id at most once, only ids handed out to guests, and the id of
every principal but the host. -/
structure Tracked (s : System D) : Prop where
  nodup : s.machine.phys.activeGuests.Nodup
  bounds : ∀ id ∈ s.machine.phys.activeGuests, 2 ≤ id.raw ∧ id.raw < s.machine.phys.nextId
  nextId : 2 ≤ s.machine.phys.nextId
  guests : ∀ id ∈ s.ids, id ≠ .host → id ∈ s.machine.phys.activeGuests

/-- Every call keeps the active set tracking the guests. -/
theorem Tracked.step {s s' : System D} {c : Call} {r : Except Error Unit} (hs : s.Tracked)
    (h : s.step c = some (s', r)) : s'.Tracked := by
  have hids : ∀ id ∈ s'.ids, id ∈ s.ids ∨
      s.machine.phys.nextId < s'.machine.phys.nextId ∧ id = ⟨s.machine.phys.nextId⟩ := by
    rcases (keepsIds_step h).ids with he | ⟨hlt, he⟩ <;> intro id hid <;> rw [he] at hid
    · exact .inl hid
    · rcases List.mem_append.mp hid with hid | hid
      exacts [.inl hid, .inr ⟨hlt, List.mem_singleton.mp hid⟩]
  have h2 := hs.nextId
  rcases keepsActive_step h with ⟨ha, hn⟩ | ⟨ha, hn⟩
  · refine ⟨ha ▸ hs.nodup, fun id hid => ?_, hn ▸ hs.nextId, fun id hid hne => ?_⟩
    · rw [hn]
      exact hs.bounds id (ha ▸ hid)
    · rcases hids id hid with hid | ⟨hlt, -⟩
      · exact ha ▸ hs.guests id hid hne
      · omega
  · refine ⟨ha ▸ List.nodup_append.mpr ⟨hs.nodup, List.nodup_singleton _, ?_⟩, fun id hid => ?_,
      by omega, fun id hid hne => ha ▸ ?_⟩
    · intro id hid hnew
      rw [List.mem_singleton.mp hnew] at hid
      exact Nat.lt_irrefl _ (hs.bounds _ hid).2
    · rcases List.mem_append.mp (ha ▸ hid) with hid | hid
      · have := hs.bounds id hid
        omega
      · rw [List.mem_singleton.mp hid]
        exact ⟨h2, hn⟩
    · rcases hids id hid with hid | ⟨-, rfl⟩
      · exact List.mem_append_left _ (hs.guests id hid hne)
      · exact List.mem_append_right _ (List.mem_singleton_self _)

end System

end Salus
