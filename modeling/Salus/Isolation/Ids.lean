import Salus.Isolation.Step

/-!
# Every principal keeps its own id

`create_guest_root_builder` is the only call that adds a principal, and it gives the new builder
the id `add_active_guest` hands out, the tracker's next id, above every id in use
(`vm_pages.rs:64`). No call changes the id of a principal it keeps: the loops invalidate, unmap
and map leaves of a table but keep its owner, and `create_host` and `create_pages` keep the
builder's table (`vm_pages.rs:285-292`, `vm_pages.rs:348-353`). So the ids of the principals stay
pairwise distinct and below the tracker's next id over every run, whatever the calls return and
whatever their callers pass. The active-guest set is another matter: a `create_guest_root_builder`
that fails with `InvalidRange` has already entered its new id there, and leaves it behind with no
principal to take it out.
-/

namespace Salus

variable {D : Type} [Inhabited D] [DataMeasure D]

namespace System

/-- The owner ids of the principals, in order. -/
def ids (s : System D) : List PageOwnerId := s.principals.map (·.root.owner)

/-- What a call may do to the ids: keep them, or append the tracker's next id and move it on;
the next id does not go down. -/
structure KeepsIds (s s' : System D) : Prop where
  nextId_le : s.machine.phys.nextId ≤ s'.machine.phys.nextId
  ids : s'.ids = s.ids ∨
    s.machine.phys.nextId < s'.machine.phys.nextId ∧ s'.ids = s.ids ++ [⟨s.machine.phys.nextId⟩]

omit [Inhabited D] [DataMeasure D] in
/-- A principal replaced by one with the same id, on a machine whose next id has not gone
down. -/
theorem keepsIds_set {m m' : Machine} {ps : List (Principal D)} {L L' : List Page4k} {i : Nat}
    {w w' : Principal D} (hw : ps[i]? = some w) (ho : w'.root.owner = w.root.owner)
    (hn : m.phys.nextId ≤ m'.phys.nextId) :
    KeepsIds ⟨m, ps, L⟩ ⟨m', ps.set i w', L'⟩ :=
  ⟨hn, .inl (owners_set_of_eq hw ho)⟩

omit [Inhabited D] [DataMeasure D] in
/-- The parent at `i` and the builder at `j` replaced by ones with the same ids. -/
theorem keepsIds_setPair {m m' : Machine} {ps : List (Principal D)} {L L' : List Page4k}
    {i j : Nat} {x x' y y' : Principal D} (hij : i ≠ j) (hx : ps[i]? = some x)
    (hy : ps[j]? = some y) (hox : x'.root.owner = x.root.owner)
    (hoy : y'.root.owner = y.root.owner) (hn : m.phys.nextId ≤ m'.phys.nextId) :
    KeepsIds ⟨m, ps, L⟩ ⟨m', (ps.set i x').set j y', L'⟩ := by
  refine ⟨hn, .inl ?_⟩
  simp only [ids]
  rw [owners_set_of_eq ((List.getElem?_set_ne hij).trans hy) hoy, owners_set_of_eq hx hox]

/-! ## The loops keep the owner and the next id -/

/-- The host's loop keeps the table's owner and the next id. -/
theorem owner_keptByMap (o : PageOwnerId) (n : Nat) :
    KeptByMap fun _ root _ phys => root.owner = o ∧ phys.nextId = n where
  map := by
    intro page _ root pte _ _ a hq hset
    exact ⟨(root.mapPage4k_spec a page pte).2.1.trans hq.1,
      (PhysPages.setPageOwner_nextId hset).trans hq.2⟩
  drop hq := hq

omit [Inhabited D] [DataMeasure D] in
/-- The slots of `remove_4k_pages` keep the table's owner and the next id. -/
theorem owner_keptByUnmap (ownerId o : PageOwnerId) (n : Nat) :
    KeptByUnmap ownerId fun _ t m => t.owner = o ∧ m.phys.nextId = n where
  pop _ hq hpop := ⟨hq.1, (PhysPages.popOwner_nextId hpop).trans hq.2⟩
  stop _ hq hphys := ⟨hq.1, by
    rcases hphys with rfl | ⟨_, hpop⟩
    exacts [hq.2, (PhysPages.popOwner_nextId hpop).trans hq.2]⟩

omit [Inhabited D] [DataMeasure D] in
/-- Hand-overs keep the parent's owner, the builder's owner and the next id. -/
theorem owner_keptByHandOver (o o' : PageOwnerId) (n : Nat) :
    KeptByHandOver (D := D) fun t dest m => t.owner = o ∧ dest.root.owner = o' ∧
      m.phys.nextId = n where
  drop _ hq _ hm := by rw [hm]; exact hq
  put _ hq hset hpl _ hm :=
    ⟨hq.1, hpl.owner.trans hq.2.1, by rw [hm, PhysPages.setPageOwner_nextId hset, hq.2.2]⟩

omit [Inhabited D] [DataMeasure D] in
/-- Pulls keep the parent's owner and the next id. -/
theorem owner_keptByPull (id o : PageOwnerId) (n : Nat) :
    KeptByPull id fun (_ : List Page4k) t phys => t.owner = o ∧ phys.nextId = n where
  pull _ hq hset := ⟨hq.1, (PhysPages.setPageOwner_nextId hset).trans hq.2⟩

omit [DataMeasure D] in
/-- `create_guest_root_builder` keeps the parent's owner; on success the new builder has the
tracker's next id, which moves on. -/
theorem createGuestRootBuilder_owner {v v' : VmPages D} {fromAddr : PageAddr PageSize4k}
    {m m' : Machine} {r : Except Error (GuestRootBuilder D × Page4k)}
    (h : v.createGuestRootBuilder fromAddr m = some (r, v', m')) :
    v'.root.owner = v.root.owner ∧ m.phys.nextId ≤ m'.phys.nextId ∧
      ∀ b sp, r = .ok (b, sp) →
        b.root.owner = ⟨m.phys.nextId⟩ ∧ m.phys.nextId < m'.phys.nextId := by
  rcases createGuestRootBuilder_eq_some h with ⟨rfl, -, -, hn, e, rfl⟩ |
    ⟨phys₁, slots, rootPages, rest₁, t₁, phys₂, ptePage, rest₂, t₂, phys₃, sp, rest₃, b, hid, htake,
      hnext₁, hnext₂, -, -, rfl, -, hbid, -⟩
  · exact ⟨rfl, hn, fun _ _ h => nomatch h⟩
  obtain ⟨-, -, hn₁⟩ := PhysPages.addActiveGuest_eq_ok hid
  have hQ := owner_keptByPull ⟨m.phys.nextId⟩ v.root.owner phys₁.nextId
  obtain ⟨ho, hn⟩ := cleanPages_induct hQ htake hnext₁ hnext₂ ⟨rfl, rfl⟩
  refine ⟨ho, by omega, ?_⟩
  rintro _ _ ⟨⟩
  exact ⟨hbid, by omega⟩

/-! ## Every call -/

section Calls

variable {m : Machine} {ps : List (Principal D)} {L : List Page4k} {s' : System D}
  {r : Except Error Unit} {i j : Nat} {fromAddr : PageAddr PageSize4k} {count : Nat}

omit [Inhabited D] in
theorem hostCall_keepsIds {pages : List Page4k} {toAddr : PageAddr PageSize4k}
    {f : HostRootBuilder D → PhysPages → Option (HostRootBuilder D × PhysPages)}
    (hf : ∀ b phys b' phys', f b phys = some (b', phys') → ∃ d d' : D,
      HostRootBuilder.add4kDataPagesLoop pages (some toAddr.bits) d b.root b.ptePages phys =
        some (d', b'.root, b'.ptePages, phys'))
    (h : (System.mk m ps L).hostCall i pages f = some (s', r)) :
    KeepsIds (System.mk m ps L) s' := by
  obtain ⟨b, b', phys', hb, -, hfb, rfl⟩ := hostCall_eq_some h
  obtain ⟨_, _, hloop⟩ := hf _ _ _ _ hfb
  obtain ⟨ho, hn⟩ := add4kDataPagesLoop_induct (owner_keptByMap b.root.owner m.phys.nextId) pages
    hloop ⟨rfl, rfl⟩
  exact keepsIds_set hb ho hn.ge

omit [Inhabited D] [DataMeasure D] in
theorem builderCall_keepsIds {page : Page4k}
    {f : GuestRootBuilder D → Except Error Unit × GuestRootBuilder D}
    (hf : ∀ b, (f b).2.root.owner = b.root.owner)
    (h : (System.mk m ps L).builderCall j page f = some (s', r)) :
    KeepsIds (System.mk m ps L) s' := by
  obtain ⟨b, hb, -, rfl⟩ := builderCall_eq_some h
  exact keepsIds_set hb (hf b) le_rfl

theorem createGuestRootBuilder_keepsIds
    (h : (System.mk m ps L).step (.createGuestRootBuilder i fromAddr) = some (s', r)) :
    KeepsIds (System.mk m ps L) s' := by
  obtain ⟨v, r', v', m', hv, hc, h⟩ := step_createGuestRootBuilder h
  obtain ⟨ho, hn, hb⟩ := createGuestRootBuilder_owner hc
  have hset := owners_set_of_eq hv
    (show (Principal.vm v').root.owner = (Principal.vm v).root.owner from ho)
  rcases r' with _ | ⟨b, sp⟩ <;> dsimp only at h <;> subst h
  · exact ⟨hn, .inl hset⟩
  · obtain ⟨hbid, hlt⟩ := hb b sp rfl
    refine ⟨hn, .inr ⟨hlt, ?_⟩⟩
    simp only [ids, List.map_append, hset, List.map_singleton]
    rw [show (Principal.guestBuilder b).root.owner = _ from hbid]

theorem addPtePagesBuilder_keepsIds
    (h : (System.mk m ps L).step (.addPtePagesBuilder i fromAddr count j) = some (s', r)) :
    KeepsIds (System.mk m ps L) s' := by
  obtain ⟨v, b, ⟨root', meas'⟩, b', m', hv, hb, hc, rfl⟩ := step_addPtePagesBuilder h
  obtain ⟨slots, _, hl, rfl⟩ := VmPages.addPtePagesBuilder_eq_loop hc
  obtain ⟨ho, ho', hn⟩ := addPtePagesLoop_induct (owner_keptByHandOver _ _ _) slots hl
    ⟨rfl, rfl, rfl⟩
  exact keepsIds_setPair (ne_of_vm_guestBuilder hv hb) hv hb ho ho' hn.ge

theorem add4kPagesBuilder_keepsIds {toAddr : PageAddr PageSize4k} {measurePreserve : Bool}
    (h : (System.mk m ps L).step (.add4kPagesBuilder i fromAddr count j toAddr measurePreserve) =
      some (s', r)) :
    KeepsIds (System.mk m ps L) s' := by
  obtain ⟨v, b, _, ⟨root', meas'⟩, b', m', hv, hb, hc, rfl⟩ := step_add4kPagesBuilder h
  obtain ⟨slots, _, hl, rfl⟩ := VmPages.add4kPagesBuilder_eq_loop hc
  obtain ⟨ho, ho', hn⟩ := add4kPagesBuilderLoop_induct (owner_keptByHandOver _ _ _)
    measurePreserve slots hl ⟨rfl, rfl, rfl⟩
  exact keepsIds_setPair (ne_of_vm_guestBuilder hv hb) hv hb ho ho' hn.ge

theorem remove4kPages_keepsIds
    (h : (System.mk m ps L).step (.remove4kPages i fromAddr count) = some (s', r)) :
    KeepsIds (System.mk m ps L) s' := by
  obtain ⟨v, r', ⟨root', meas'⟩, m', hv, hc, rfl⟩ := step_remove4kPages h
  obtain ⟨slots, _, hl, rfl, -⟩ := VmPages.remove4kPages_eq_loop hc
  obtain ⟨ho, hn⟩ := remove4kPagesLoop_induct (owner_keptByUnmap _ v.root.owner m.phys.nextId)
    slots hl ⟨rfl, rfl⟩
  exact keepsIds_set hv ho hn.ge

end Calls

/-- Every call keeps the ids of the principals it keeps, and adds at most the next id. -/
theorem keepsIds_step {s s' : System D} {c : Call} {r : Except Error Unit}
    (h : s.step c = some (s', r)) : KeepsIds s s' := by
  obtain ⟨m, ps, L⟩ := s
  cases c with
  | add4kDataPages i toAddr pages =>
    exact hostCall_keepsIds (fun _ _ _ _ hf => ⟨_, _, add4kDataPages_loop hf⟩) h
  | add4kPages i toAddr pages =>
    exact hostCall_keepsIds (fun _ _ _ _ hf => ⟨default, add4kPages_loop default hf⟩) h
  | createHost i =>
    obtain ⟨b, hb, rfl⟩ := step_createHost h
    exact keepsIds_set hb rfl le_rfl
  | createGuestRootBuilder i fromAddr => exact createGuestRootBuilder_keepsIds h
  | addPtePagesBuilder i fromAddr count j => exact addPtePagesBuilder_keepsIds h
  | add4kPagesBuilder i fromAddr count j toAddr measurePreserve =>
    exact add4kPagesBuilder_keepsIds h
  | remove4kPages i fromAddr count => exact remove4kPages_keepsIds h
  | addPtePage j page => exact builderCall_keepsIds (fun b => (places_addPtePage b page).owner) h
  | addDataPage j gpa page =>
    exact builderCall_keepsIds (fun b => (places_addDataPage b gpa page).owner) h
  | addZeroPage j gpa page =>
    exact builderCall_keepsIds (fun b => (places_addZeroPage b gpa page).owner) h
  | createPages j =>
    obtain ⟨b, hb, rfl⟩ := step_createPages h
    exact keepsIds_set hb rfl le_rfl

end System

namespace System

omit [DataMeasure D] in
/-- Every error of `create_guest_root_builder` leaves the VM as it was, and the machine too but
for `InvalidRange`: that error comes after `add_active_guest` has taken the next id, and the
machine keeps what `add_active_guest` made of it. -/
theorem createGuestRootBuilder_error {v v' : VmPages D} {fromAddr : PageAddr PageSize4k}
    {m m' : Machine} {e : Error}
    (h : v.createGuestRootBuilder fromAddr m = some (.error e, v', m')) :
    v' = v ∧ (m' = m ∨ e = .invalidRange ∧ m'.mem = m.mem ∧
      m.phys.addActiveGuest = .ok (⟨m.phys.nextId⟩, m'.phys)) := by
  unfold VmPages.createGuestRootBuilder at h
  split at h
  · cases h
    exact ⟨rfl, .inl rfl⟩
  split at h
  · cases h
    exact ⟨rfl, .inl rfl⟩
  rename_i id phys hid
  obtain ⟨rfl, -, -⟩ := PhysPages.addActiveGuest_eq_ok hid
  split at h
  · cases h
    exact ⟨rfl, .inr ⟨rfl, rfl, hid⟩⟩
  · simp [Option.bind_eq_some] at h

omit [DataMeasure D] in
/-- A 16 KiB-aligned window that runs past the end of the address space fails with
`InvalidRange` once `add_active_guest` has succeeded, on the machine `add_active_guest` left:
the new id stays in the active set. -/
theorem createGuestRootBuilder_out_of_range (v : VmPages D) {fromAddr : PageAddr PageSize4k}
    (m : Machine) (ha : fromAddr.bits % topLevelAlign = 0) (hr : 2 ^ 64 < fromAddr.bits + 6 * 4096)
    {id : PageOwnerId} {phys : PhysPages} (hid : m.phys.addActiveGuest = .ok (id, phys)) :
    v.createGuestRootBuilder fromAddr m = some (.error .invalidRange, v, { m with phys }) ∧
      phys.activeGuests = m.phys.activeGuests ++ [id] := by
  have hnone : PageTable.invalidateRange fromAddr 6 = none := if_neg fun h => Nat.not_le.mpr hr h.2
  refine ⟨?_, PhysPages.addActiveGuest_activeGuests hid⟩
  simp only [VmPages.createGuestRootBuilder, show fromAddr.bits % (16 * 1024) = 0 from ha, hid,
    hnone, ne_eq, not_true_eq_false, ↓reduceIte]

omit [Inhabited D] [DataMeasure D] in
/-- `Drop for VmPages` takes only the VM's own id out of the active set. -/
theorem mem_drop_activeGuests {v : VmPages D} {phys : PhysPages} {id : PageOwnerId}
    (hne : id ≠ v.root.owner) (h : id ∈ phys.activeGuests) : id ∈ (v.drop phys).activeGuests :=
  (List.mem_erase_of_ne hne).mpr h

end System

/-- In the small machine, once `create_host` has run, the host asks for a guest whose window
starts 16 KiB below the end of the address space. The call fails with `InvalidRange` and leaves
the principals and the owner stacks as they were, but guest id 2 is now active, and dropping
any VM of the system leaves it so. -/
theorem createGuestRootBuilder_leaks_guest_id :
    ∃ s : System PageLog, Reachable smallHypMem Admitted s ∧ ∃ s',
      s.step (.createGuestRootBuilder 0 ⟨0xFFFFFFFFFFFFC000, by decide, by decide⟩) =
        some (s', .error .invalidRange) ∧
      s'.principals = s.principals ∧ s'.machine.phys.owners = s.machine.phys.owners ∧
      s'.machine.phys.activeGuests = s.machine.phys.activeGuests ++ [⟨2⟩] ∧
      ∀ v, Principal.vm v ∈ s'.principals → ⟨2⟩ ∈ (v.drop s'.machine.phys).activeGuests := by
  have hc : ∀ s : System PageLog, ∀ c ∈ [Call.createHost 0], Admitted s c := fun _ c hc => by
    rw [List.mem_singleton.mp hc]
    trivial
  obtain ⟨s, hs, hp⟩ := exists_reachable_of_allowed_run smallHypMem [.createHost 0] hc
    (fun s : System PageLog =>
      match s.principals[0]?, s.machine.phys.addActiveGuest with
      | some (Principal.vm _), .ok (id, _) => id == ⟨2⟩ && decide (⟨2⟩ ∉ s.ids)
      | _, _ => false) (by decide)
  refine ⟨s, hs, ?_⟩
  revert hp
  split
  · rename_i v id phys hv hid
    simp only [Bool.and_eq_true, beq_iff_eq, decide_eq_true_eq]
    rintro ⟨rfl, hids⟩
    obtain ⟨hcgrb, hact⟩ := @System.createGuestRootBuilder_out_of_range _ _ v
      ⟨0xFFFFFFFFFFFFC000, by decide, by decide⟩ s.machine (by decide) (by decide) _ _ hid
    have hstep : s.step (.createGuestRootBuilder 0 ⟨0xFFFFFFFFFFFFC000, by decide, by decide⟩) =
        some (⟨{ s.machine with phys }, s.principals, s.loose⟩, .error .invalidRange) := by
      simp only [System.step, hv, hcgrb, Option.map_some', set_of_getElem?_eq hv]
    refine ⟨_, hstep, rfl, (PhysPages.addActiveGuest_eq_ok hid).2.1, hact, fun w hw => ?_⟩
    refine System.mem_drop_activeGuests (fun h => hids ?_)
      (by rw [hact]; exact List.mem_append_right _ (List.mem_singleton_self _))
    rw [h]
    exact List.mem_map_of_mem (fun w : Principal PageLog => w.root.owner) hw
  · nofun

end Salus
